import VBox.Storage.Vhd.Expand
import Mathlib.Data.List.Nodup

/-!
A failed expansion is rolled back, once.

The status word packs a state for each step. `Working` says where an expansion stands: which steps
are in progress, that the file is only touched behind its old end and in the one table entry, and
that the table and the end of the file are as before but for this block. The step that completes
the word leaves it for `RolledBack`.
-/

namespace VBox.Storage.Vhd

open VBox.Lib List Function

/-! ### The status word -/

inductive StepState where
  | inProgress
  | failed
  | success
  deriving DecidableEq

def StepState.code : StepState → UInt32
  | .inProgress => 0
  | .failed => 2
  | .success => 3

/-- The word for the states of the steps. -/
def pack (state : Step → StepState) : UInt32 :=
  (state .blockBitmap).code ||| (state .userBlock).code <<< 2 ||| (state .footer).code <<< 4 |||
    (state .bat).code <<< 6

/-- A step in progress is given the state it ends in. -/
theorem statusSet_pack {state : Step → StepState} {step : Step} (going : state step = .inProgress)
    (ended : StepState) :
    statusSet (pack state) step.shift ended.code = pack (update state step ended) := by
  cases step <;> simp only [pack, update_self, ne_eq, reduceCtorEq, not_false_eq_true,
    update_of_ne, going] <;>
  · generalize state .blockBitmap = a, state .userBlock = b, state .footer = c, state .bat = d
    cases a <;> cases b <;> cases c <;> cases d <;> cases ended <;> rfl

theorem statusGet_pack (state : Step → StepState) :
    statusGet (pack state) Step.bat.shift = (state .bat).code := by
  unfold pack
  generalize state .blockBitmap = a, state .userBlock = b, state .footer = c, state .bat = d
  cases a <;> cases b <;> cases c <;> cases d <;> rfl

theorem forall_step {p : Step → Prop} :
    (∀ step, p step) ↔ p .blockBitmap ∧ p .userBlock ∧ p .bat ∧ p .footer := by
  constructor
  · intro every
    exact ⟨every _, every _, every _, every _⟩
  · rintro ⟨first, second, third, fourth⟩ step
    cases step <;> assumption

theorem pack_complete_iff (state : Step → StepState) :
    pack state &&& allComplete = allComplete ↔ ∀ step, state step ≠ .inProgress := by
  rw [forall_step]
  unfold pack
  generalize state .blockBitmap = a, state .userBlock = b, state .footer = c, state .bat = d
  cases a <;> cases b <;> cases c <;> cases d <;> decide

theorem pack_success_iff (state : Step → StepState) :
    pack state = allSuccess ↔ ∀ step, state step = .success := by
  rw [forall_step]
  unfold pack
  generalize state .blockBitmap = a, state .userBlock = b, state .footer = c, state .bat = d
  cases a <;> cases b <;> cases c <;> cases d <;> decide

/-! ### Valid images -/

/-- A dynamic image whose blocks are in front of the footer and apart from the table. -/
structure Valid (disk : Disk) : Prop where
  loaded : Loaded disk.image
  related : Related disk.image
  dynamic : disk.image.fDynamic = true
  bitmapFits : disk.image.cSectorsPerDataBlock ≤ 8 * (disk.image.cDataBlockBitmapSectors * 512)
  small : disk.image.uCurrentEndOfFile < 2 ^ 63
  footerLast : disk.file.size = disk.image.uCurrentEndOfFile + 512
  table : disk.image.uBlockAllocationTableOffset + disk.image.cBlockAllocationTableEntries * 4 ≤
    disk.image.uCurrentEndOfFile
  block : ∀ block < disk.image.cBlockAllocationTableEntries,
    disk.image.blockAllocationTable block ≠ freeEntry →
      let off := (disk.image.blockAllocationTable block).toNat * 512
      let cb := disk.image.cDataBlockBitmapSectors * 512 + disk.image.cbDataBlock
      off + cb ≤ disk.image.uCurrentEndOfFile ∧
        (off + cb ≤ disk.image.uBlockAllocationTableOffset ∨
          disk.image.uBlockAllocationTableOffset + disk.image.cBlockAllocationTableEntries * 4 ≤ off)

section

variable {before : Disk} {entry : Nat}

/-- The entry of a block lies in the table. -/
theorem Valid.entry_inside (valid : Valid before) (below : entry < before.image.cBlockAllocationTableEntries) :
    entryOffset before.image entry = before.image.uBlockAllocationTableOffset + entry * 4 ∧
      before.image.uBlockAllocationTableOffset + entry * 4 + 4 ≤
        before.image.uCurrentEndOfFile := by
  have inside := valid.table
  have small := valid.small
  constructor
  · exact Nat.mod_eq_of_lt (by omega)
  · omega

/-! ### The transfers in the file -/

/-- The bytes that are neither behind the old end nor in the entry. -/
def Outside (before : Disk) (entry i : Nat) : Prop :=
  i < before.image.uCurrentEndOfFile ∧
    (i < before.image.uBlockAllocationTableOffset + entry * 4 ∨
      before.image.uBlockAllocationTableOffset + entry * 4 + 4 ≤ i)

/-- A transfer of the expansion leaves the other bytes alone. -/
def Mine (before : Disk) (entry : Nat) (transfer : Transfer) : Prop :=
  before.image.uCurrentEndOfFile ≤ transfer.off ∨
    (transfer.off = before.image.uBlockAllocationTableOffset + entry * 4 ∧ transfer.cb = 4)

theorem Mine.apply {transfer : Transfer} (mine : Mine before entry transfer) (file : ByteFile)
    (outcome : Outcome) {i : Nat} (outside : Outside before entry i) :
    (transfer.apply file outcome).byte i = file.byte i := by
  have apart : ∀ n ≤ transfer.cb, i < transfer.off ∨ transfer.off + n ≤ i := by
    intro n shorter
    rcases mine with behind | ⟨place, four⟩
    · exact .inl (Nat.lt_of_lt_of_le outside.1 behind)
    · rw [place]
      exact outside.2.imp_right fun after => by omega
  cases outcome with
  | success => exact ByteFile.byte_write_of_not_mem (apart _ (Nat.le_refl _))
  | failed cbLeft left => exact ByteFile.byte_write_of_not_mem (apart _ (Nat.min_le_right _ _))

/-! ### Where an expansion stands -/

/-- The expansion of a block: `todo` are the steps that have not been submitted. -/
structure Working (before : Disk) (entry : Nat) (todo : List Step) (state : Step → StepState)
    (s : Expansion) : Prop where
  flags : s.expand.fFlags = pack state
  idx : s.expand.idxBatAllocated = entry
  eofOld : s.expand.cbEofOld = before.image.uCurrentEndOfFile
  image : s.disk.image = { before.image with
    blockAllocationTable := s.disk.image.blockAllocationTable
    uCurrentEndOfFile := s.disk.image.uCurrentEndOfFile }
  table : Function.update s.disk.image.blockAllocationTable entry freeEntry =
    before.image.blockAllocationTable
  eof : before.image.uCurrentEndOfFile ≤ s.disk.image.uCurrentEndOfFile
  footer : s.disk.vhdFooterCopy = before.vhdFooterCopy
  bytes : ∀ i, Outside before entry i → s.disk.file.byte i = before.file.byte i
  progress : ∀ step, state step = .inProgress ↔ step ∈ s.pending.map Prod.fst ++ todo
  nodup : (s.pending.map Prod.fst ++ todo).Nodup
  mine : ∀ waiting ∈ s.pending, Mine before entry waiting.2
  failed : ∀ step, (step, false) ∈ s.completed → state step = .failed
  written : ∀ step, (step, true) ∈ s.completed → state step = .success
  once : s.cRollbacks = 0

/-- What a failed expansion leaves. -/
structure RolledBack (before : Disk) (entry : Nat) (s : Expansion) : Prop where
  table : s.disk.image.blockAllocationTable = before.image.blockAllocationTable
  eof : s.disk.image.uCurrentEndOfFile = before.image.uCurrentEndOfFile
  entryFree : (.bat, true) ∈ s.completed →
    ∀ i < 4, s.disk.file.byte (before.image.uBlockAllocationTableOffset + entry * 4 + i) = 0xff
  footerLast : s.disk.file.size = before.image.uCurrentEndOfFile + 512 ∧
    ∀ i < 512, s.disk.file.byte (before.image.uCurrentEndOfFile + i) = before.vhdFooterCopy i
  reads : ∀ block < before.image.cBlockAllocationTableEntries,
    ∀ sector < before.image.cSectorsPerDataBlock,
      readSector s.disk block sector = readSector before block sector
  once : s.cRollbacks = 1

/-- The bytes of a sector lie between the start and the end of its block. -/
theorem sector_inside (block bitmap : Nat) {sector i cb : Nat} (short : i < 512)
    (last : (sector + 1) * 512 ≤ cb) : block * 512 ≤ (block + bitmap + sector) * 512 + i ∧
      (block + bitmap + sector) * 512 + i < block * 512 + (bitmap * 512 + cb) := by
  omega

section

variable (valid : Valid before) (below : entry < before.image.cBlockAllocationTableEntries)

include valid below

/-- Blocks of a valid image are read from the bytes outside. -/
theorem readSector_congr {disk : Disk}
    (table : disk.image.blockAllocationTable = before.image.blockAllocationTable)
    (sectors : disk.image.cDataBlockBitmapSectors = before.image.cDataBlockBitmapSectors)
    (bytes : ∀ i, Outside before entry i → disk.file.byte i = before.file.byte i)
    {block sector : Nat} (inTable : block < before.image.cBlockAllocationTableEntries)
    (inBlock : sector < before.image.cSectorsPerDataBlock) :
    readSector disk block sector = readSector before block sector := by
  unfold readSector
  simp only [table, sectors]
  by_cases used : before.image.blockAllocationTable block = freeEntry
  · rw [if_pos used, if_pos used]
  · rw [if_neg used, if_neg used]
    obtain ⟨front, apart⟩ := valid.block block inTable used
    have fits := valid.bitmapFits
    have sectorsEq := valid.loaded.sectors
    have sectorSize : VHD_SECTOR_SIZE = 512 := rfl
    simp only [sectorSize]
    generalize (before.image.blockAllocationTable block).toNat = at512 at front apart ⊢
    -- All bytes of the block are outside.
    have inside : ∀ i, at512 * 512 ≤ i →
        i < at512 * 512 + (before.image.cDataBlockBitmapSectors * 512 + before.image.cbDataBlock) →
        disk.file.byte i = before.file.byte i := by
      intro i low high
      refine bytes i ⟨by omega, ?_⟩
      rcases apart with early | late
      · exact .inl (by omega)
      · exact .inr (by omega)
    rw [inside (at512 * 512 + sector / 8) (Nat.le_add_right _ _) (by omega)]
    split
    · apply congrArg some
      apply map_congr_left
      intro i member
      have short : i < 512 := mem_range.mp member
      have last : (sector + 1) * 512 ≤ before.image.cbDataBlock :=
        (Nat.le_div_iff_mul_le (by decide)).mp (sectorsEq ▸ inBlock)
      obtain ⟨low, high⟩ := sector_inside at512 before.image.cDataBlockBitmapSectors short last
      exact inside _ low high
    · rfl

/-- The rollback of an expansion that has completed. -/
theorem Working.rollback {state : Step → StepState} {s : Expansion}
    (working : Working before entry [] state s) (complete : ∀ step, state step ≠ .inProgress) :
    RolledBack before entry (rollback s) ∧ (rollback s).completed = s.completed ∧
      (rollback s).pending = s.pending := by
  obtain ⟨place, inFile⟩ := valid.entry_inside below
  have status : statusGet s.expand.fFlags Step.bat.shift = (state .bat).code := by
    rw [working.flags, statusGet_pack]
  have offset : entryOffset s.disk.image entry =
      before.image.uBlockAllocationTableOffset + entry * 4 := by
    rw [working.image]
    exact place
  have eof : u64 (before.image.uCurrentEndOfFile + cbFooter) =
      before.image.uCurrentEndOfFile + 512 := by
    have := valid.small
    exact Nat.mod_eq_of_lt (by show _ + 512 < _; omega)
  have ended : (state .bat).code = stepFailed ∨ (state .bat).code = stepSuccess := by
    cases known : state .bat with
    | inProgress => exact absurd known (complete .bat)
    | failed => exact .inl rfl
    | success => exact .inr rfl
  have table : (Storage.Vhd.rollback s).disk.image.blockAllocationTable =
      before.image.blockAllocationTable := by
    unfold Storage.Vhd.rollback
    simp only [status, working.idx]
    rw [if_pos ended, working.table]
  have file : (Storage.Vhd.rollback s).disk.file =
      (((if (state .bat).code = stepSuccess then
          s.disk.file.write (before.image.uBlockAllocationTableOffset + entry * 4) 4
            (host32 freeEntry)
        else s.disk.file).setSize (before.image.uCurrentEndOfFile + 512)).write
          before.image.uCurrentEndOfFile 512 before.vhdFooterCopy) := by
    unfold Storage.Vhd.rollback
    simp only [status, working.idx, offset, eof, working.eofOld, working.footer]
    rw [if_pos ended, update_self]
    rfl
  have frame : ∀ i, Outside before entry i →
      (Storage.Vhd.rollback s).disk.file.byte i = before.file.byte i := by
    intro i outside
    rw [file, ByteFile.byte_write_of_not_mem (.inl outside.1),
      ByteFile.byte_setSize_of_lt (Nat.lt_add_right 512 outside.1), ← working.bytes i outside]
    split
    · exact ByteFile.byte_write_of_not_mem outside.2
    · rfl
  refine ⟨⟨table, working.eofOld, ?_, ⟨?_, ?_⟩, ?_, ?_⟩, rfl, rfl⟩
  · intro written i short
    have success := working.written .bat written
    rw [file, ByteFile.byte_write_of_not_mem (by omega), ByteFile.byte_setSize_of_lt (by omega),
      success, if_pos (show StepState.success.code = stepSuccess from rfl),
      ByteFile.byte_write_of_mem (by omega) (by omega), Nat.add_sub_cancel_left]
    have cases4 : i = 0 ∨ i = 1 ∨ i = 2 ∨ i = 3 := by omega
    rcases cases4 with rfl | rfl | rfl | rfl <;> decide
  · rw [file, ByteFile.size_write, if_neg (by decide), ByteFile.size_setSize, Nat.max_self]
  · intro i short
    rw [file, ByteFile.byte_write_of_mem (Nat.le_add_right _ _) (by omega),
      Nat.add_sub_cancel_left]
  · intro block inTable sector inBlock
    refine readSector_congr valid below table ?_ frame inTable inBlock
    show s.disk.image.cDataBlockBitmapSectors = _
    rw [working.image]
  · show s.cRollbacks + 1 = 1
    rw [working.once]

end

end

/-! ### What the parts of an expansion keep -/

/-- The state a transfer's outcome puts its step in. -/
def Outcome.ended (outcome : Outcome) : StepState := if outcome.succeeded then .success else .failed

theorem Outcome.ended_ne (outcome : Outcome) : outcome.ended ≠ .inProgress := by
  unfold Outcome.ended
  split <;> decide

/-- A step in the middle of the steps in progress is no longer one of them. -/
theorem mem_of_nodup_middle {front back : List Step} {step other : Step}
    (nodup : (front ++ step :: back).Nodup) :
    other ∈ front ++ back ↔ other ∈ front ++ step :: back ∧ other ≠ step := by
  have apart := (nodup_cons.mp (nodup_middle.mp nodup)).1
  constructor
  · intro member
    refine ⟨?_, ?_⟩
    · rw [mem_append, mem_cons]
      exact (mem_append.mp member).imp_right .inr
    · rintro rfl
      exact apart member
  · rintro ⟨member, different⟩
    rw [mem_append, mem_cons] at member
    rw [mem_append]
    exact member.imp_right fun later => later.resolve_left different

section

variable {before : Disk} {entry : Nat} {todo : List Step} {state : Step → StepState} {s : Expansion}

section

variable (working : Working before entry todo state s)

include working

/-- A step that was in progress ends. -/
theorem Working.setStatus (step : Step) {front back todo' : List Step}
    (pending : List (Step × Transfer))
    (here : s.pending.map Prod.fst ++ todo = front ++ step :: back)
    (after : pending.map Prod.fst ++ todo' = front ++ back)
    (fewer : ∀ waiting ∈ pending, waiting ∈ s.pending) (ended : StepState)
    (finished : ended ≠ .inProgress) : Working before entry todo' (update state step ended)
      ({ s with pending }.setStatus step ended.code) := by
  have going : state step = .inProgress := by
    rw [working.progress, here]
    exact mem_append_right _ mem_cons_self
  have nodup := working.nodup
  rw [here] at nodup
  -- What has completed is another step.
  have other : ∀ {x : Step} {value : StepState}, state x = value → value ≠ .inProgress →
      update state step ended x = value := by
    intro x value known different
    rw [update_of_ne]
    · exact known
    · rintro rfl
      exact different (known.symm.trans going)
  refine
    { flags := ?_
      idx := working.idx
      eofOld := working.eofOld
      image := working.image
      table := working.table
      eof := working.eof
      footer := working.footer
      bytes := working.bytes
      progress := ?_
      nodup := ?_
      mine := fun waiting member => working.mine waiting (fewer waiting member)
      failed := fun x member => other (working.failed x member) (by decide)
      written := fun x member => other (working.written x member) (by decide)
      once := working.once }
  · show statusSet s.expand.fFlags step.shift ended.code = _
    rw [working.flags, statusSet_pack going]
  · intro x
    show _ ↔ x ∈ pending.map Prod.fst ++ todo'
    rw [after, mem_of_nodup_middle nodup, ← here, ← working.progress]
    by_cases same : x = step
    · subst same
      rw [update_self]
      exact ⟨fun wrong => absurd wrong finished, fun both => absurd rfl both.2⟩
    · rw [update_of_ne same]
      exact ⟨fun known => ⟨known, same⟩, And.left⟩
  · show (pending.map Prod.fst ++ todo').Nodup
    rw [after]
    exact (nodup_cons.mp (nodup_middle.mp nodup)).2

/-- The transfer of a step that has ended. -/
theorem Working.transferred {step : Step} {transfer : Transfer} (mine : Mine before entry transfer)
    {outcome : Outcome} (ended : state step = outcome.ended) :
    Working before entry todo state (s.transferred step transfer outcome) := by
  refine { working with
    bytes := ?_
    failed := ?_
    written := ?_ }
  · intro i outside
    exact (mine.apply s.disk.file outcome outside).trans (working.bytes i outside)
  · intro x member
    rcases mem_cons.mp member with new | old
    · obtain ⟨rfl, lost⟩ := Prod.mk.inj new
      rw [ended, Outcome.ended, ← lost, if_neg Bool.false_ne_true]
    · exact working.failed x old
  · intro x member
    rcases mem_cons.mp member with new | old
    · obtain ⟨rfl, arrived⟩ := Prod.mk.inj new
      rw [ended, Outcome.ended, ← arrived, if_pos rfl]
    · exact working.written x old

/-- The steps behind a failed one count as failed. -/
theorem Working.failAll : ∃ state, Working before entry [] state
      (todo.foldl (fun s later => s.setStatus later stepFailed) s) := by
  induction todo generalizing state s with
  | nil => exact ⟨state, working⟩
  | cons step rest ih =>
    exact ih (working.setStatus step s.pending rfl rfl (fun _ member => member) .failed
      (by decide))

end

theorem foldl_setStatus_pending (steps : List Step) (s : Expansion) :
    (steps.foldl (fun s later => s.setStatus later stepFailed) s).pending = s.pending ∧
      (steps.foldl (fun s later => s.setStatus later stepFailed) s).fIoInProgress =
        s.fIoInProgress := by
  induction steps generalizing s with
  | nil => exact ⟨rfl, rfl⟩
  | cons step rest ih => exact ih (s.setStatus step stepFailed)

/-- Where the submitter stands: it remembers whether a transfer is in progress. -/
structure Submitting (before : Disk) (entry : Nat) (todo : List Step) (s : Expansion) : Prop where
  working : ∃ state, Working before entry todo state s
  remembers : s.fIoInProgress = true ↔ s.pending ≠ []

theorem Submitting.submit {step : Step} (submitting : Submitting before entry (step :: todo) s)
    (onwards : step.onwards = step :: todo) {transfer : Transfer}
    (mine : Mine before entry transfer) (answer : Answer) {t : Expansion} :
    (submit s step transfer answer = .ok t →
        Submitting before entry todo t ∧ t.disk.image = s.disk.image ∧
          t.disk.vhdFooterCopy = s.disk.vhdFooterCopy) ∧
      (submit s step transfer answer = .error t → Submitting before entry [] t) := by
  obtain ⟨⟨state, working⟩, remembers⟩ := submitting
  have ended : ∀ outcome : Outcome, Working before entry todo
      (update state step outcome.ended)
      ((s.setStatus step outcome.ended.code).transferred step transfer outcome) := fun outcome =>
    (working.setStatus step s.pending rfl rfl (fun _ member => member) outcome.ended
      outcome.ended_ne).transferred mine (update_self ..)
  match answer with
  | .done .success =>
    constructor
    · rintro ⟨⟩
      exact ⟨⟨⟨_, ended .success⟩, remembers⟩, rfl, rfl⟩
    · rintro ⟨⟩
  | .inProgress =>
    constructor
    · rintro ⟨⟩
      have same : (s.pending ++ [(step, transfer)]).map Prod.fst ++ todo =
          s.pending.map Prod.fst ++ step :: todo := by
        rw [map_append, append_assoc]
        rfl
      refine ⟨⟨⟨state, { working with
        progress := ?_
        nodup := ?_
        mine := ?_ }⟩, ?_⟩, rfl, rfl⟩
      · intro x
        show _ ↔ x ∈ (s.pending ++ [(step, transfer)]).map Prod.fst ++ todo
        rw [same]
        exact working.progress x
      · show ((s.pending ++ [(step, transfer)]).map Prod.fst ++ todo).Nodup
        rw [same]
        exact working.nodup
      · intro waiting member
        rcases mem_append.mp member with old | new
        · exact working.mine waiting old
        · rw [mem_singleton.mp new]
          exact mine
      · exact ⟨fun _ => append_ne_nil_of_right_ne_nil _ (cons_ne_nil _ _), fun _ => rfl⟩
    · rintro ⟨⟩
  | .done (.failed cbLeft left) =>
    constructor
    · rintro ⟨⟩
    · intro failed
      have result := Except.error.inj failed
      rw [onwards] at result
      subst result
      refine ⟨(ended (.failed cbLeft left)).failAll, ?_⟩
      obtain ⟨pending, progress⟩ := foldl_setStatus_pending (step :: todo)
        (s.transferred step transfer (.failed cbLeft left))
      rw [pending, progress]
      exact remembers

end

/-! ### The submitter -/

section

variable {before : Disk} {entry : Nat} {s : Expansion}

/-- Linking the block moves the end of the file up. -/
theorem Submitting.link {todo : List Step} (valid : Valid before)
    (submitting : Submitting before entry todo s) (same : s.disk.image = before.image) :
    Submitting before entry todo (link s entry) := by
  obtain ⟨⟨state, working⟩, remembers⟩ := submitting
  refine ⟨⟨state, { working with
    image := ?_
    table := ?_
    eof := ?_ }⟩, remembers⟩
  · rw [← same]
    rfl
  · show update (update s.disk.image.blockAllocationTable entry _) entry _ = _
    rw [update_idem, working.table]
  · show _ ≤ u64 _
    have small := valid.small
    have add : u32 (cbBitmapSectors s.disk.image + s.disk.image.cbDataBlock) < 2 ^ 32 :=
      Nat.mod_lt _ (by decide)
    rw [same] at add ⊢
    unfold u64
    rw [Nat.mod_eq_of_lt (by omega)]
    exact Nat.le_add_right _ _

theorem Submitting.start (small : before.image.blockAllocationTable entry = freeEntry)
    (cBATEntryIndex cbWrite : Nat) :
    Submitting before entry [.blockBitmap, .userBlock, .bat, .footer]
      (startExpand before entry cBATEntryIndex cbWrite) := by
  refine ⟨⟨fun _ => .inProgress, ?_⟩, ?_⟩
  · exact
      { flags := rfl
        idx := rfl
        eofOld := rfl
        image := rfl
        table := update_eq_self_iff.mpr small.symm
        eof := Nat.le_refl _
        footer := rfl
        bytes := fun _ _ => rfl
        progress := by
          intro step
          show _ ↔ step ∈ [Step.blockBitmap, .userBlock, .bat, .footer]
          cases step <;> decide
        nodup := by
          show [Step.blockBitmap, .userBlock, .bat, .footer].Nodup
          decide
        mine := fun _ member => absurd member not_mem_nil
        failed := fun _ member => absurd member not_mem_nil
        written := fun _ member => absurd member not_mem_nil
        once := rfl }
  · exact ⟨fun wrong => absurd wrong Bool.false_ne_true, fun wrong => absurd rfl wrong⟩

/-- However the submitter leaves its loop, the steps are in progress or have a state. -/
theorem submitAll_submitting (valid : Valid before)
    (below : entry < before.image.cBlockAllocationTableEntries)
    (submitting : Submitting before entry [.blockBitmap, .userBlock, .bat, .footer] s)
    (same : s.disk.image = before.image) (cbWrite : Nat) (user : Buf) (answer : Step → Answer)
    {t : Expansion} (left : submitAll s entry cbWrite user answer = .ok t ∨
      submitAll s entry cbWrite user answer = .error t) : Submitting before entry [] t := by
  have small := valid.small
  unfold submitAll at left
  simp only [bind, Except.bind] at left
  have bitmapMine : Mine before entry
      ⟨s.disk.image.uCurrentEndOfFile, cbBitmapSectors s.disk.image, s.expand.au8Bitmap⟩ := by
    rw [same]
    exact .inl (Nat.le_refl _)
  cases first : submit s .blockBitmap
    ⟨s.disk.image.uCurrentEndOfFile, cbBitmapSectors s.disk.image, s.expand.au8Bitmap⟩
    (answer .blockBitmap) with
  | error _ =>
    rw [first] at left
    rcases left with ⟨⟨⟩⟩ | ⟨⟨⟩⟩
    exact (submitting.submit rfl bitmapMine _).2 first
  | ok s₁ =>
  simp only [first] at left
  obtain ⟨submitting₁, same₁, -⟩ := (submitting.submit rfl bitmapMine _).1 first
  rw [same] at same₁
  have userMine : Mine before entry
      ⟨u64 (s₁.disk.image.uCurrentEndOfFile + cbBitmapSectors s₁.disk.image), cbWrite, user⟩ := by
    have add : cbBitmapSectors before.image < 2 ^ 32 := Nat.mod_lt _ (by decide)
    rw [same₁]
    refine .inl ?_
    show _ ≤ (_ + _) % 2 ^ 64
    rw [Nat.mod_eq_of_lt (by omega)]
    exact Nat.le_add_right _ _
  cases second : submit s₁ .userBlock
    ⟨u64 (s₁.disk.image.uCurrentEndOfFile + cbBitmapSectors s₁.disk.image), cbWrite, user⟩
    (answer .userBlock) with
  | error _ =>
    rw [second] at left
    rcases left with ⟨⟨⟩⟩ | ⟨⟨⟩⟩
    exact (submitting₁.submit rfl userMine _).2 second
  | ok s₂ =>
  simp only [second] at left
  obtain ⟨submitting₂, same₂, -⟩ := (submitting₁.submit rfl userMine _).1 second
  rw [same₁] at same₂
  have batMine : Mine before entry ⟨entryOffset s₂.disk.image entry, 4, s₂.expand.idxBlockBe⟩ := by
    rw [same₂]
    exact .inr ⟨(valid.entry_inside below).1, rfl⟩
  cases third : submit s₂ .bat ⟨entryOffset s₂.disk.image entry, 4, s₂.expand.idxBlockBe⟩
    (answer .bat) with
  | error _ =>
    rw [third] at left
    rcases left with ⟨⟨⟩⟩ | ⟨⟨⟩⟩
    exact (submitting₂.submit rfl batMine _).2 third
  | ok s₃ =>
  simp only [third] at left
  obtain ⟨submitting₃, same₃, -⟩ := (submitting₂.submit rfl batMine _).1 third
  rw [same₂] at same₃
  have linked := submitting₃.link valid same₃
  have footerMine : Mine before entry ⟨(Storage.Vhd.link s₃ entry).disk.image.uCurrentEndOfFile,
      cbFooter, (Storage.Vhd.link s₃ entry).disk.vhdFooterCopy⟩ := by
    obtain ⟨_, working⟩ := linked.working
    exact .inl working.eof
  rcases left with last | last
  · exact ((linked.submit rfl footerMine _).1 last).1
  · exact (linked.submit rfl footerMine _).2 last

/-! ### Runs -/

/-- A transfer is in progress, or the expansion is over and has been undone if a transfer failed. -/
def Stage (before : Disk) (entry : Nat) (s : Expansion) : Prop :=
  (s.pending ≠ [] ∧ ∃ state, Working before entry [] state s) ∨
    (s.pending = [] ∧ ((∃ step, (step, false) ∈ s.completed) → RolledBack before entry s))

section

variable (valid : Valid before) (below : entry < before.image.cBlockAllocationTableEntries)

include valid below

theorem Working.complete {state : Step → StepState} (working : Working before entry [] state s)
    (none : s.pending = []) : Stage before entry (vhdAsyncExpansionComplete s) := by
  have complete : ∀ step, state step ≠ .inProgress := by
    intro step going
    rw [working.progress, none] at going
    exact absurd going not_mem_nil
  unfold vhdAsyncExpansionComplete
  split
  case isTrue succeeded =>
    rw [working.flags, pack_success_iff] at succeeded
    refine .inr ⟨none, ?_⟩
    rintro ⟨step, lost⟩
    have failed := working.failed step lost
    rw [succeeded step] at failed
    cases failed
  case isFalse =>
    obtain ⟨rolledBack, -, pending⟩ := working.rollback valid below complete
    exact .inr ⟨pending.trans none, fun _ => rolledBack⟩

theorem Submitting.afterLoop (submitting : Submitting before entry [] s) :
    Stage before entry (if s.fIoInProgress then s else vhdAsyncExpansionComplete s) := by
  obtain ⟨⟨state, working⟩, remembers⟩ := submitting
  split
  case isTrue progress => exact .inl ⟨remembers.mp progress, state, working⟩
  case isFalse none =>
    exact working.complete valid below (not_not.mp fun some => none (remembers.mpr some))

/-- A completion: the last one finds the word complete. -/
theorem Stage.completes (stage : Stage before entry s) {label : Step × Outcome} {t : Expansion}
    (completes : Completes s label t) : Stage before entry t := by
  obtain ⟨past, transfer, rest, waiting, rfl⟩ := completes
  obtain ⟨-, state, working⟩ | ⟨none, -⟩ := stage
  case inr =>
    rw [none] at waiting
    exact absurd waiting.symm (append_ne_nil_of_right_ne_nil _ (cons_ne_nil _ _))
  have mine : Mine before entry transfer :=
    working.mine (label.1, transfer)
      (waiting ▸ mem_append_right _ mem_cons_self)
  have here : s.pending.map Prod.fst ++ [] = past.map Prod.fst ++ label.1 :: rest.map Prod.fst := by
    rw [waiting, append_nil, map_append, map_cons]
  have after : (past ++ rest).map Prod.fst ++ [] = past.map Prod.fst ++ rest.map Prod.fst := by
    rw [append_nil, map_append]
  have ended := (working.setStatus label.1 (past ++ rest) here after
    (fun other member => by
      rw [waiting]
      rcases mem_append.mp member with front | back
      · exact mem_append_left _ front
      · exact mem_append_right _ (mem_cons_of_mem _ back))
    label.2.ended label.2.ended_ne).transferred mine (update_self ..)
  have code : label.2.ended.code = if label.2.succeeded then stepSuccess else stepFailed := by
    unfold Outcome.ended
    split <;> rfl
  rw [code] at ended
  unfold vhdAsyncExpansionStepCompleted
  have known : ∀ u : Expansion, Working before entry []
      (update state label.1 label.2.ended) u → u.pending = past ++ rest →
      Stage before entry
        (if u.expand.fFlags &&& allComplete = allComplete then vhdAsyncExpansionComplete u
          else u) := by
    intro u working' pending
    rw [working'.flags]
    split
    case isTrue complete =>
      rw [pack_complete_iff] at complete
      refine working'.complete valid below ?_
      rw [← map_eq_nil_iff (f := Prod.fst), eq_nil_iff_forall_not_mem]
      intro step going
      exact complete step ((working'.progress step).mpr (mem_append_left _ going))
    case isFalse incomplete =>
      refine .inl ⟨?_, _, working'⟩
      intro none
      apply incomplete
      rw [pack_complete_iff]
      intro step going
      rw [working'.progress, none] at going
      exact absurd going not_mem_nil
  exact known _ ended rfl

end

end

/-- An expansion of a block of which a transfer fails leaves everything as it was before, once all
transfers have completed: whichever transfers fail, at once or later and in whatever order. -/
theorem expand_rolledBack {before : Disk} (valid : Valid before) {uOffset cbWrite : Nat}
    (inside : uOffset + cbWrite ≤ before.image.cbSize) {fNoAlloc fAlloc : Bool} {user : Buf}
    {answer : Step → Answer} {submitted s : Expansion} {labels : List (Step × Outcome)}
    (write : vhdWriteExpand before uOffset cbWrite fNoAlloc fAlloc user answer = some submitted)
    (run : Run Completes submitted labels s) (complete : s.pending = [])
    (failed : ∃ step, (step, false) ∈ s.completed) :
    RolledBack before (uOffset / 512 / (before.image.cbDataBlock / 512)) s := by
  unfold vhdWriteExpand at write
  simp only at write
  split at write
  case isFalse => cases write
  case isTrue allocates =>
    obtain ⟨free, whole, -⟩ := allocates
    have block := valid.related.block
    have some' : 0 < cbWrite := by
      apply Nat.pos_of_ne_zero
      rintro rfl
      rw [not_or, not_not, Nat.zero_min] at whole
      omega
    obtain ⟨sector, below⟩ := valid.related.entry_lt some' inside
    have sectorEq : u32 (uOffset / VHD_SECTOR_SIZE) = uOffset / 512 := Nat.mod_eq_of_lt sector
    rw [sectorEq, valid.loaded.sectors] at free
    have started := Option.some.inj write
    rw [sectorEq, valid.loaded.sectors] at started
    generalize uOffset / 512 / (before.image.cbDataBlock / 512) = entry at free below started ⊢
    have start := Submitting.start free (uOffset / 512 % (before.image.cbDataBlock / 512))
      (min cbWrite (restOfBlock before.image (uOffset / 512 % (before.image.cbDataBlock / 512))))
    have first : Stage before entry submitted := by
      rw [← started]
      unfold Storage.Vhd.afterLoop
      split
      case h_1 left =>
        exact (submitAll_submitting valid below start rfl _ _ _ (.inl left)).afterLoop valid below
      case h_2 left =>
        exact (submitAll_submitting valid below start rfl _ _ _ (.inr left)).afterLoop valid below
    have last := run.invariant (Stage before entry)
      (fun stage taken => stage.completes valid below taken) first
    rcases last with ⟨going, -⟩ | ⟨-, undone⟩
    · exact absurd complete going
    · exact undone failed

/-- A disk of two blocks of 4 KB; the second one is allocated. -/
def smallDisk : Disk :=
  { image :=
      { cbSize := 8192
        fDynamic := true
        blockAllocationTable := fun block => if block = 1 then 4 else freeEntry
        cBlockAllocationTableEntries := 2
        cbDataBlock := 4096
        cSectorsPerDataBlock := 8
        cbDataBlockBitmap := 1
        cDataBlockBitmapSectors := 1
        uCurrentEndOfFile := 6656
        uBlockAllocationTableOffset := 1536 }
    vhdFooterCopy := fun _ => 0x63
    file := ⟨7168, fun _ => 0, fun _ _ => rfl⟩ }

theorem smallDisk_valid : Valid smallDisk :=
  { loaded := ⟨by decide, by decide, rfl, rfl⟩
    related := ⟨by decide, rfl, by decide, by decide⟩
    dynamic := rfl
    bitmapFits := by decide
    small := by decide
    footerLast := rfl
    table := by decide
    block := by decide }

/-- The data write fails after the footer has been written. -/
theorem expand_rolledBack_late : ∃ submitted s,
    vhdWriteExpand smallDisk 0 4096 false true (fun _ => 1)
        (fun | .blockBitmap => .done .success | .userBlock => .inProgress
             | .bat => .done .success | .footer => .inProgress) = some submitted ∧
      Run Completes submitted [(.footer, .success), (.userBlock, .failed 100 fun _ => 7)] s ∧
      RolledBack smallDisk 0 s := by
  obtain ⟨submitted, write, s, run, complete, failed⟩ : ∃ submitted,
      vhdWriteExpand smallDisk 0 4096 false true (fun _ => 1)
        (fun | .blockBitmap => .done .success | .userBlock => .inProgress
             | .bat => .done .success | .footer => .inProgress) = some submitted ∧
      ∃ s, Run Completes submitted
        [(.footer, .success), (.userBlock, .failed 100 fun _ => 7)] s ∧ s.pending = [] ∧
        (.userBlock, false) ∈ s.completed :=
    ⟨_, rfl, _, .next ⟨[(.userBlock, _)], _, [], rfl, rfl⟩
      (.next ⟨[], _, [], rfl, rfl⟩ (.done _)), rfl, mem_cons_self⟩
  exact ⟨submitted, s, write, run,
    expand_rolledBack smallDisk_valid (by decide) write run complete ⟨_, failed⟩⟩

end VBox.Storage.Vhd
