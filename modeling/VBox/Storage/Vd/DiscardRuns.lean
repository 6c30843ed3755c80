import VBox.Storage.Vd.DiscardCalls
import VBox.Storage.Vdi.CompactRuns

/-!
Discard requests stay inside the disk.

Records are whole blocks of the image, so the last one may reach over the end of the disk.
`Inside` is the invariant: no record has a free sector behind the end. It is kept by every
step but a round that records such a block.
-/

namespace VBox.Storage.Vd

open VBox.Lib VBox.Storage.Vdi List Option

variable {image : VdiImage} {cbBlock cbDisk off cb : Nat}

/-! ### The invariant -/

/-- Everything on record or asked for is inside the disk, and so is all that the backend
has been called with. -/
structure Inside (cbBlock cbDisk : Nat) (s : VdDisk) : Prop where
  geometry : Geometry s.image cbBlock cbDisk
  recorded : ∀ b ∈ s.listLru, Recorded cbBlock cbDisk b
  ranges : ∀ r ∈ s.paRanges, 512 ∣ r.1 ∧ 512 ∣ r.2 ∧ 0 < r.2 ∧ r.1 + r.2 ≤ cbDisk
  offCur : Nat.gcd 512 cbBlock ∣ s.offCur
  cbDiscardLeft : Nat.gcd 512 cbBlock ∣ s.cbDiscardLeft
  current : s.offCur + s.cbDiscardLeft ≤ cbDisk
  handed : ∀ r ∈ s.handed, r.1 + r.2 ≤ cbDisk
  valid : .verrInvalidParameter ∉ s.failed

namespace Inside

variable {s t : VdDisk}

section

variable (inside : Inside cbBlock cbDisk s)

include inside

theorem kept (kept : Kept cbBlock cbDisk s t) : Inside cbBlock cbDisk t where
  geometry := kept.geometry inside.geometry
  recorded := fun b member => inside.recorded b (kept.listLru b member)
  ranges := by
    rw [kept.paRanges]
    exact inside.ranges
  offCur := by
    rw [kept.offCur]
    exact inside.offCur
  cbDiscardLeft := by
    rw [kept.cbDiscardLeft]
    exact inside.cbDiscardLeft
  current := by
    rw [kept.offCur, kept.cbDiscardLeft]
    exact inside.current
  handed := kept.handed inside.handed
  valid := by
    rw [kept.failed]
    exact inside.valid

theorem advance {cb : Nat} (fits : cb ≤ s.cbDiscardLeft) (aligned : Nat.gcd 512 cbBlock ∣ cb) :
    Inside cbBlock cbDisk (s.advance cb) where
  geometry := inside.geometry
  recorded := inside.recorded
  ranges := inside.ranges
  offCur := Nat.dvd_add inside.offCur aligned
  cbDiscardLeft := Nat.dvd_sub inside.cbDiscardLeft aligned
  current := by
    have current := inside.current
    change s.offCur + cb + (s.cbDiscardLeft - cb) ≤ cbDisk
    omega
  handed := inside.handed
  valid := inside.valid

theorem relisted {listLru : List VdDiscardBlock} (cbDiscarding : Nat)
    (recorded : ∀ b ∈ listLru, Recorded cbBlock cbDisk b) :
    Inside cbBlock cbDisk { s with listLru := listLru, cbDiscarding := cbDiscarding } :=
  ⟨inside.geometry, recorded, inside.ranges, inside.offCur, inside.cbDiscardLeft,
    inside.current, inside.handed, inside.valid⟩

theorem loadRange : Inside cbBlock cbDisk s.loadRange := by
  unfold VdDisk.loadRange
  split
  · rename_i offStart cbRange paRanges none loaded
    obtain ⟨start, length, -, fits⟩ := inside.ranges _ (loaded ▸ mem_cons_self)
    exact ⟨inside.geometry, inside.recorded,
      fun r member => inside.ranges r (loaded ▸ mem_cons_of_mem _ member),
      (Nat.gcd_dvd_left _ _).trans start, (Nat.gcd_dvd_left _ _).trans length, fits,
      inside.handed, inside.valid⟩
  · exact inside

theorem loadRange_pos (busy : s.isIdle = false) : 0 < s.loadRange.cbDiscardLeft := by
  unfold VdDisk.loadRange
  split
  · rename_i offStart cbRange paRanges none loaded
    exact (inside.ranges _ (loaded ▸ mem_cons_self)).2.2.1
  · rename_i other
    by_contra zero
    have none : s.cbDiscardLeft = 0 := by omega
    cases paRanges : s.paRanges with
    | nil => simp [VdDisk.isIdle, none, paRanges] at busy
    | cons r rest => exact other r.1 r.2 rest none paRanges

end

theorem finish {rc : Status} (inside : Inside cbBlock cbDisk t)
    (valid : rc ≠ .verrInvalidParameter) : Inside cbBlock cbDisk (VdDisk.finish (rc, t)) := by
  unfold VdDisk.finish
  split
  · exact inside
  · refine ⟨inside.geometry, inside.recorded, nofun, inside.offCur, Nat.dvd_zero _, ?_,
      inside.handed, fun member => ?_⟩
    · exact (Nat.le_add_right _ _).trans inside.current
    · rcases mem_append.mp member with old | new
      · exact inside.valid old
      · exact valid (mem_singleton.mp new).symm

end Inside

/-! ### A round -/

/-- `bm` are the sectors of an allocated block that still hold data when a range is taken out
of it, and there are some. -/
inductive PartBitmap (image : VdiImage) (off cb : Nat) (bm : Nat → Bool) : Prop where
  | intro {ptrBlock : Nat} {data : Buf}
      (entry : image.paBlocks[blockIndex image off]? = some ptrBlock)
      (inUse : IsAllocated ptrBlock)
      (read : image.file.read (ptrBlock * image.cbTotalBlockData + image.offStartData)
        image.cbTotalBlockData = some data)
      (needed : (clearRange data (blockOffset image off) (clipToBlock image off cb)).isZero
        (cbTested (getImageBlockSize image.header)) = false)
      (bitmap : vdiAllocationBitmapCreate
        (clearRange data (blockOffset image off) (clipToBlock image off cb))
        (getImageBlockSize image.header) = some bm)

theorem vdiDiscard_recorded {fMarkUnused : Bool} {result : DiscardResult} {bm : Nat → Bool}
    (run : vdiDiscard image off cb fMarkUnused = some result)
    (recorded : result.rc = .verrVdDiscardAlignmentNotMet)
    (bitmap : result.pbmAllocationBitmap = some bm) : PartBitmap image off cb bm := by
  unfold vdiDiscard at run
  split at run
  · cases run
    cases recorded
  split at run
  · cases run
    cases recorded
  dsimp only at run
  split at run
  · cases run
  rename_i ptrBlock entry
  split at run
  · cases run
    cases recorded
  rename_i inUse
  split at run
  · obtain ⟨outcome, -, rfl⟩ := map_eq_some_iff.mp run
    cases bitmap
  split at run
  · cases run
    cases recorded
  unfold discardPartial at run
  dsimp only at run
  split at run
  · cases run
  split at run
  · cases run
    cases recorded
  rename_i data read
  split at run
  · obtain ⟨outcome, -, rfl⟩ := map_eq_some_iff.mp run
    cases bitmap
  rename_i needed
  obtain ⟨bm', created, rfl⟩ := map_eq_some_iff.mp run
  obtain rfl := some.inj bitmap
  exact ⟨entry, not_not.mp inUse, read, Bool.eq_false_iff.mpr needed, created⟩

theorem discardCurrentRange_inside {s t : VdDisk} {rc : Status} {cbThis : Nat}
    (inside : Inside cbBlock cbDisk s) (whole : 512 ∣ cbDisk) (positive : 0 < cbThis)
    (fits : cbThis ≤ s.cbDiscardLeft) (aligned : Nat.gcd 512 cbBlock ∣ cbThis)
    (tail : ∀ bm, PartBitmap s.image s.offCur cbThis bm → ∀ i < cbBlock / 512,
      cbDisk ≤ s.offCur - s.offCur % cbBlock + 512 * i → bm i = true)
    (run : s.discardCurrentRange cbThis = some (rc, t)) :
    rc ≠ .verrInvalidParameter ∧ Inside cbBlock cbDisk t := by
  have current := inside.current
  unfold VdDisk.discardCurrentRange at run
  split at run
  · cases run
  rename_i result u returned
  obtain ⟨answer, kept⟩ := pfnDiscard_kept inside.geometry (by omega) positive returned
  have insideU := inside.kept kept
  have small := Nat.mod_lt s.offCur inside.geometry.positive
  -- what has been discarded is whole sectors of the range
  have advanced : Inside cbBlock cbDisk
      (u.advance (min cbThis (cbBlock - s.offCur % cbBlock))) := by
    refine insideU.advance ?_ ?_
    · rw [kept.cbDiscardLeft]
      exact (Nat.min_le_left _ _).trans fits
    · rcases Nat.le_total cbThis (cbBlock - s.offCur % cbBlock) with first | first
      · rw [Nat.min_eq_left first]
        exact aligned
      · rw [Nat.min_eq_right first]
        have block := Nat.gcd_dvd_right 512 cbBlock
        exact Nat.dvd_sub block ((Nat.dvd_mod_iff block).mpr inside.offCur)
  split at run
  · rename_i cbActual rc' actual
    obtain ⟨notWhole, actual', pre, post⟩ := answer.recorded rc'
    obtain rfl := some.inj (actual.symm.trans actual')
    rw [pre, post] at run
    cases bitmap : result.pbmAllocationBitmap with
    | none =>
      simp only [bitmap] at run
      cases run
    | some bm =>
      simp only [bitmap, kept.offCur] at run
      have sectors : 512 ∣ cbBlock := by
        rcases inside.geometry.sectors with sectors | tiny
        · exact sectors
        have one : Nat.gcd 512 cbBlock = cbBlock := Nat.gcd_eq_right tiny
        have offset := inside.offCur
        rw [one] at offset aligned
        exact absurd ⟨Nat.mod_eq_zero_of_dvd offset, Nat.le_of_dvd positive aligned⟩ notWhole
      obtain ⟨result', run', same⟩ := map_eq_some_iff.mp returned
      obtain ⟨rfl, -⟩ := Prod.mk.inj same
      have part := vdiDiscard_recorded run' rc' bitmap
      have recorded : Recorded cbBlock cbDisk ⟨s.offCur - s.offCur % cbBlock,
          s.offCur % cbBlock + min cbThis (cbBlock - s.offCur % cbBlock) +
            (cbBlock - min cbThis (cbBlock - s.offCur % cbBlock) - s.offCur % cbBlock), bm⟩ := by
        refine ⟨sectors, Nat.dvd_sub_mod _, ?_, tail bm part⟩
        dsimp only
        omega
      have noted := advanced.relisted
        (u.cbDiscarding + (s.offCur % cbBlock + min cbThis (cbBlock - s.offCur % cbBlock) +
            (cbBlock - min cbThis (cbBlock - s.offCur % cbBlock) - s.offCur % cbBlock)))
        (forall_mem_cons.mpr ⟨recorded, advanced.recorded⟩)
      split at run
      · obtain ⟨valid, kept⟩ := removeBlocks_kept whole noted.geometry noted.recorded run
        exact ⟨valid, noted.kept kept⟩
      · obtain ⟨rfl, rfl⟩ := Prod.mk.inj (some.inj run)
        exact ⟨by decide, noted⟩
  · rename_i cbActual rc' actual
    obtain rfl := some.inj (actual.symm.trans (answer.success rc'))
    obtain ⟨rfl, rfl⟩ := Prod.mk.inj (some.inj run)
    exact ⟨by decide, advanced⟩
  · cases run
  · obtain ⟨rfl, rfl⟩ := Prod.mk.inj (some.inj run)
    exact ⟨answer.valid, insideU⟩

theorem blockAboveLast_spec {s : VdDisk} {keyLast : Nat}
    (found : s.blockAboveLast off = some keyLast) :
    ∃ b ∈ s.listLru, off ≤ b.key ∧ b.key + b.cbDiscard - 1 = keyLast := by
  obtain ⟨b, member, same⟩ := List.mem_map.mp (min?_mem found)
  obtain ⟨listed, above⟩ := mem_filter.mp member
  exact ⟨b, listed, by simpa using above, same⟩

/-- Without a record at its start, a range is discarded in whole sectors too. -/
theorem Inside.cbThisDiscard {s : VdDisk} (inside : Inside cbBlock cbDisk s)
    (positive : 0 < s.cbDiscardLeft) : 0 < s.cbThisDiscard ∧ s.cbThisDiscard ≤ s.cbDiscardLeft ∧
      Nat.gcd 512 cbBlock ∣ s.cbThisDiscard := by
  unfold VdDisk.cbThisDiscard
  split
  · rename_i keyLast found
    obtain ⟨b, listed, above, rfl⟩ := blockAboveLast_spec found
    have recorded := inside.recorded b listed
    have length := recorded.length
    have blockPos := inside.geometry.positive
    have span : b.key + b.cbDiscard - 1 - s.offCur + 1 = b.key + cbBlock - s.offCur := by omega
    rw [span]
    refine ⟨by omega, Nat.min_le_left _ _, ?_⟩
    rcases Nat.le_total s.cbDiscardLeft (b.key + cbBlock - s.offCur) with first | first
    · rw [Nat.min_eq_left first]
      exact inside.cbDiscardLeft
    · rw [Nat.min_eq_right first]
      have block := Nat.gcd_dvd_right 512 cbBlock
      exact Nat.dvd_sub (Nat.dvd_add (block.trans recorded.start) block) inside.offCur
  · exact ⟨positive, le_rfl, inside.cbDiscardLeft⟩

theorem discardHelper_inside {s t : VdDisk} {rc : Status} (inside : Inside cbBlock cbDisk s)
    (whole : 512 ∣ cbDisk) (positive : 0 < s.cbDiscardLeft)
    (tail : (∀ b ∈ s.listLru, b.covers s.offCur = false) → ∀ bm,
      PartBitmap s.image s.offCur s.cbThisDiscard bm → ∀ i < cbBlock / 512,
        cbDisk ≤ s.offCur - s.offCur % cbBlock + 512 * i → bm i = true)
    (run : s.discardHelper = some (rc, t)) :
    rc ≠ .verrInvalidParameter ∧ Inside cbBlock cbDisk t := by
  have current := inside.current
  unfold VdDisk.discardHelper at run
  split at run
  · rename_i missing
    obtain ⟨cbPos, fits, aligned⟩ := inside.cbThisDiscard positive
    exact discardCurrentRange_inside inside whole cbPos fits aligned
      (tail (findIdx?_eq_none_iff.mp missing)) run
  rename_i idx found
  split at run
  · cases run
  rename_i pBlock here
  obtain ⟨bound, covers, -⟩ := findIdx?_eq_some_iff_getElem.mp found
  obtain ⟨_, same⟩ := List.getElem?_eq_some_iff.mp here
  rw [same] at covers
  simp only [VdDiscardBlock.covers, Bool.and_eq_true, decide_eq_true_eq] at covers
  have recorded := inside.recorded pBlock (mem_of_getElem? here)
  have length := recorded.length
  have fits := Nat.min_le_left s.cbDiscardLeft (pBlock.key + pBlock.cbDiscard - s.offCur)
  have advanced := inside.advance fits (by
    have block := Nat.gcd_dvd_right 512 cbBlock
    rcases Nat.le_total s.cbDiscardLeft (pBlock.key + pBlock.cbDiscard - s.offCur) with
      first | first
    · rw [Nat.min_eq_left first]
      exact inside.cbDiscardLeft
    · rw [Nat.min_eq_right first, length]
      exact Nat.dvd_sub (Nat.dvd_add (block.trans recorded.start) block) inside.offCur)
  have behind : pBlock.key + 512 * ((s.offCur - pBlock.key) / 512 +
      min s.cbDiscardLeft (pBlock.key + pBlock.cbDiscard - s.offCur) / 512) ≤ cbDisk := by
    omega
  have cleared := recorded.clearRange ((s.offCur - pBlock.key) / 512) behind
  dsimp only at run
  generalize pBlock.clearRange ((s.offCur - pBlock.key) / 512) ((s.offCur - pBlock.key) / 512 +
    min s.cbDiscardLeft (pBlock.key + pBlock.cbDiscard - s.offCur) / 512) = b at run cleared
  split at run
  · rename_i empty
    have stands : ∀ c ∈ s.listLru.set idx b, Recorded cbBlock cbDisk c := by
      intro c member
      rcases mem_or_eq_of_mem_set member with old | rfl
      · exact inside.recorded c old
      · exact cleared
    have listed := advanced.relisted s.cbDiscarding stands
    obtain ⟨valid, kept⟩ := discardWholeBlock_kept cleared whole listed.geometry empty run
    exact ⟨valid, listed.kept kept⟩
  · obtain ⟨rfl, rfl⟩ := Prod.mk.inj (some.inj run)
    refine ⟨by decide, advanced.relisted _ (forall_mem_cons.mpr ⟨cleared, fun c member => ?_⟩)⟩
    exact inside.recorded c (mem_of_mem_eraseIdx member)

/-! ### Runs -/

/-- No round records a block with a sector behind the end of the disk that holds no data. -/
def Regular (s : VdDisk) : VdLabel → Prop
  | .round => s.isIdle = false →
      (∀ b ∈ s.listLru, b.covers s.loadRange.offCur = false) →
      ∀ bm, PartBitmap s.image s.loadRange.offCur s.loadRange.cbThisDiscard bm →
        ∀ i < getImageBlockSize s.image.header / 512,
          getImageDiskSize s.image.header ≤
            s.loadRange.offCur - blockOffset s.image s.loadRange.offCur + 512 * i → bm i = true
  | _ => True

theorem loadRange_frame (s : VdDisk) :
    s.loadRange.image = s.image ∧ s.loadRange.listLru = s.listLru := by
  unfold VdDisk.loadRange
  split <;> exact ⟨rfl, rfl⟩

theorem Inside.step {s t : VdDisk} {label : VdLabel} (inside : Inside cbBlock cbDisk s)
    (whole : 512 ∣ cbDisk) (regular : Regular s label) (step : VdStep s label t) :
    Inside cbBlock cbDisk t := by
  have diskSize := inside.geometry.diskSize
  cases step with
  | discard idle valid =>
    exact ⟨inside.geometry, inside.recorded, fun r member => diskSize ▸ valid r member,
      inside.offCur, inside.cbDiscardLeft, inside.current, inside.handed, inside.valid⟩
  | @round outcome busy returns =>
    obtain ⟨image, listLru⟩ := loadRange_frame s
    have loaded := inside.loadRange
    have tail := regular busy
    rw [← image, ← listLru, loaded.geometry.blockSize, loaded.geometry.diskSize,
      loaded.geometry.offset] at tail
    obtain ⟨valid, done⟩ :=
      discardHelper_inside loaded whole (inside.loadRange_pos busy) tail returns
    exact done.finish valid
  | @write uOffset cbWrite data fNoAlloc result _ returns =>
    have geometry : Geometry result.image cbBlock cbDisk := by
      by_cases success : result.rc = .vinfSuccess
      · exact inside.geometry.sameShape (vdiWrite_success returns success).2.2.2.sameShape
      · rw [vdiWrite_failure returns success]
        exact inside.geometry
    refine ⟨geometry, fun b member => ?_, inside.ranges, inside.offCur, inside.cbDiscardLeft,
      inside.current, inside.handed, inside.valid⟩
    obtain ⟨b, listed, rfl⟩ := List.mem_map.mp member
    exact (inside.recorded b listed).setAllocated uOffset cbWrite
  | @destroy outcome idle returns =>
    obtain ⟨valid, kept⟩ := removeBlocks_kept whole inside.geometry inside.recorded returns
    exact (inside.kept kept).finish valid

theorem inside_opened (setUp : SetUp image) :
    Inside (getImageBlockSize image.header) (getImageDiskSize image.header) (VdDisk.opened image) :=
  ⟨geometry_of_setUp setUp, nofun, nofun, Nat.dvd_zero _, Nat.dvd_zero _, Nat.zero_le _, nofun,
    nofun⟩

/-- Requests of regular runs stay inside the disk, and none fails for its range. -/
theorem vdDiscard_inside (setUp : SetUp image) (whole : 512 ∣ getImageDiskSize image.header)
    {labels : List VdLabel} {t : VdDisk}
    (run : Run (Guarded Regular VdStep) (VdDisk.opened image) labels t) :
    (∀ r ∈ t.handed, r.1 + r.2 ≤ getImageDiskSize image.header) ∧
      .verrInvalidParameter ∉ t.failed := by
  have reached := run.invariant (Inside _ _)
    (fun inside step => inside.step whole step.1 step.2) (inside_opened setUp)
  exact ⟨reached.handed, reached.valid⟩

/-- A disk of fifteen sectors in two blocks of eight, full of data up to its end. -/
def raggedFile : ByteFile :=
  imageFile (shorterDisk 7680 (smallHeader 1024 4096 0 2 2)) [0, 1] 9216 fun j =>
    if j < 7680 then 1 else 0

def raggedImage : VdiImage := openedImage raggedFile { discard := true }

theorem raggedImage_opened : Opened raggedFile { discard := true } raggedImage :=
  vdiOpenImage_opened (openedImage_eq (by decide +kernel))

theorem raggedImage_disk : getImageDiskSize raggedImage.header = 7680 := by decide +kernel

/-- The first block of the disk is discarded at once. -/
theorem vdDiscard_inside_ragged : ∃ t,
    Run (Guarded Regular VdStep) (VdDisk.opened raggedImage) [.discard [(0, 4096)], .round] t ∧
      t.handed = [(0, 4096)] ∧
      (∀ r ∈ t.handed, r.1 + r.2 ≤ getImageDiskSize raggedImage.header) ∧
      .verrInvalidParameter ∉ t.failed := by
  let s : VdDisk := { VdDisk.opened raggedImage with paRanges := [(0, 4096)] }
  have result : s.loadRange.discardHelper.map (fun o => (VdDisk.finish o).handed) =
      some [(0, 4096)] := by decide +kernel
  obtain ⟨outcome, returns, handed⟩ := map_eq_some_iff.mp result
  have run : Run (Guarded Regular VdStep) (VdDisk.opened raggedImage)
      [.discard [(0, 4096)], .round] (VdDisk.finish outcome) := by
    refine .next ⟨trivial, .discard rfl fun r member => ?_⟩ (.single ⟨?_, .round rfl returns⟩)
    · obtain rfl := mem_singleton.mp member
      exact ⟨by decide, by decide, by decide, by decide +kernel⟩
    · intro _ _ bm _ i below behind
      have few : i < 8 := below.trans_eq (by decide +kernel)
      have far : 7680 ≤ 0 - blockOffset raggedImage 0 + 512 * i :=
        raggedImage_disk.symm.le.trans behind
      omega
  exact ⟨_, run, handed, vdDiscard_inside raggedImage_opened.setUp (by decide +kernel) run⟩

/-- The second block of the disk is discarded in two parts, then as a whole. -/
theorem vdDiscard_leaves_disk : SetUp raggedImage ∧
    ¬ ∀ labels t, Run VdStep (VdDisk.opened raggedImage) labels t →
      (∀ r ∈ t.handed, r.1 + r.2 ≤ getImageDiskSize raggedImage.header) ∧
        .verrInvalidParameter ∉ t.failed := by
  refine ⟨raggedImage_opened.setUp, fun inside => ?_⟩
  let s : VdDisk := { VdDisk.opened raggedImage with paRanges := [(7168, 512), (4096, 3072)] }
  have result : (s.loadRange.discardHelper.bind fun o =>
      (VdDisk.finish o).loadRange.discardHelper.map fun o' =>
        ((VdDisk.finish o).isIdle, (VdDisk.finish o').handed, (VdDisk.finish o').failed)) =
      some (false, [(7168, 512), (4096, 4096)], [.verrInvalidParameter]) := by decide +kernel
  obtain ⟨first, returns, rest⟩ := bind_eq_some_iff.mp result
  obtain ⟨second, returns', same⟩ := map_eq_some_iff.mp rest
  obtain ⟨busy, outcome⟩ := Prod.mk.inj same
  obtain ⟨handed, failed⟩ := Prod.mk.inj outcome
  have run : Run VdStep (VdDisk.opened raggedImage)
      [.discard [(7168, 512), (4096, 3072)], .round, .round] (VdDisk.finish second) := by
    refine .next (.discard rfl fun r member => ?_) (.next (.round rfl returns)
      (.single (.round busy returns')))
    rcases mem_pair.mp member with rfl | rfl
    · exact ⟨by decide, by decide, by decide, by decide +kernel⟩
    · exact ⟨by decide, by decide, by decide, by decide +kernel⟩
  have valid := (inside _ _ run).2
  rw [failed] at valid
  exact valid (mem_singleton.mpr rfl)

end VBox.Storage.Vd
