import VBox.Storage.Vdi.Create

/-!
Images survive a close.

`Survives` says that flushing, closing and reopening an image gives the same
block table and the same reads. `run_survives` carries it through every run of
writes and discards from a well-formed image, provided no write turns a FREE
block into a ZERO one: `vdiWrite` records that mark in memory only.
`zero_mark_lost` is a differencing image on which it gets lost.
-/

namespace VBox.Storage.Vdi

open VBox.Lib

/-! ### What survives -/

/-- Reopening gives the image back: its table and what every request inside the
disk reads. -/
def Survives (image : VdiImage) : Prop :=
  TableOnDisk (vdiFlush image) ∧ ∀ uOpenFlags : OpenFlags, ∃ reopened,
    vdiOpenImage (vdiClose (vdiFlush image)) uOpenFlags = .ok reopened ∧
    reopened.paBlocks = image.paBlocks ∧
    ∀ uOffset cb : Nat, 0 < cb → uOffset + cb ≤ getImageDiskSize image.header →
      vdiRead reopened uOffset cb = vdiRead image uOffset cb

/-- What has to hold of an image for it to survive. -/
structure Durable (image : VdiImage) : Prop where
  store : StoreInv image
  onDisk : OnDisk image
  validated : vdiValidateHeader image.header = .vinfSuccess

section Flush

variable {image : VdiImage}

/-- A flush changes the file and nothing else. -/
theorem vdiFlushImage_eq (image : VdiImage) :
    vdiFlushImage image = { image with file := (vdiFlushImage image).file } := by
  unfold vdiFlushImage
  split
  · rfl
  · rfl

theorem vdiFlushImage_header (image : VdiImage) : (vdiFlushImage image).header = image.header := by
  rw [vdiFlushImage_eq]

theorem vdiFlushImage_paBlocks (image : VdiImage) :
    (vdiFlushImage image).paBlocks = image.paBlocks := by
  rw [vdiFlushImage_eq]

theorem vdiFlushImage_offStartBlocks (image : VdiImage) :
    (vdiFlushImage image).offStartBlocks = image.offStartBlocks := by
  rw [vdiFlushImage_eq]

theorem Layout.flush (layout : Layout image) : Layout (vdiFlushImage image) := by
  rw [vdiFlushImage_eq]
  exact ⟨layout.headerEnd, layout.tableEnd, layout.noWrap⟩

/-- A durable image survives: the close flushes once more, and the file then holds
the header, the table and all blocks. -/
theorem Durable.survives (durable : Durable image) : Survives image := by
  obtain ⟨inv, onDisk, valid⟩ := durable
  have setUp := inv.table.setUp
  obtain ⟨onDisk', -, bytes, size⟩ := onDisk.flush inv.layout setUp
  have table' := inv.table.flushImage
  refine ⟨onDisk'.table, fun uOpenFlags => ?_⟩
  obtain ⟨onDisk'', stored, bytes', size'⟩ := onDisk'.flush inv.layout.flush table'.setUp
  have header := vdiFlushImage_header (vdiFlushImage image)
  rw [vdiFlushImage_header image] at header stored
  have valid' : vdiValidateHeader (vdiFlushImage (vdiFlushImage image)).header =
      .vinfSuccess := by rw [header, valid]
  rw [← header] at stored
  obtain ⟨reopened, result, entries, same⟩ := onDisk''.reopen inv.layout.flush.flush
    table'.flushImage valid' stored uOpenFlags
  rw [vdiFlushImage_paBlocks, vdiFlushImage_paBlocks] at entries
  rw [header] at same
  refine ⟨reopened, result, entries, fun uOffset cb positive inside => ?_⟩
  refine inv.reads_same (vdiOpenImage_opened result) entries same (fun k behind => ?_)
    (size.trans size') positive inside
  have behind' : (vdiFlushImage image).offStartBlocks ≤ k := by
    rw [vdiFlushImage_offStartBlocks]
    exact behind
  exact (bytes' k behind').trans (bytes k behind)

end Flush

/-! ### Where runs start -/

/-- The image was opened from a well-formed file, or made by `vdiCreate` with
offsets that do not wrap. -/
inductive Starts : VdiImage → Prop where
  | opened {file : ByteFile} {uOpenFlags : OpenFlags} {image : VdiImage}
      (result : vdiOpenImage file uOpenFlags = .ok image) (formed : WellFormed image) :
      Starts image
  | created {args : CreateArgs} {image : VdiImage} (made : MadeByCreate args image)
      (fits : LayoutFits args) (uuid : rtUuidIsNull args.uuid = false)
      (uuidModify : rtUuidIsNull args.uuidModify = false) : Starts image

theorem MadeByCreate.accepted {args : CreateArgs} {image : VdiImage}
    (made : MadeByCreate args image) : AcceptedSize args := by
  cases made with
  | created result => exact (vdiCreate_cases result).1
  | reopened result _ => exact (vdiCreate_cases result).1

theorem Starts.durable {image : VdiImage} (starts : Starts image) : Durable image := by
  cases starts with
  | opened result formed =>
    have opened := vdiOpenImage_opened result
    exact ⟨opened.storeInv formed, opened.onDisk, opened.validated⟩
  | created made fits uuid uuidModify =>
    have fresh := made.fresh fits
    refine ⟨fresh.store, fresh.onDisk, ?_⟩
    rw [fresh.header_eq]
    exact made.accepted.validated fits uuid uuidModify

/-! ### Runs -/

/-- A sound write that does not turn a FREE block into a ZERO one, or a sound
discard. -/
def SavesTable (image : VdiImage) (op : ImageOp) : Prop :=
  Sound image op ∧
    match op with
    | .write uOffset cb data _ => ¬ MarksFreeZero image uOffset cb data
    | .discard _ _ _ => True
    | .compact _ | .resize _ _ => False

/-- One call. -/
theorem Durable.step {image image' : VdiImage} {op : ImageOp} (durable : Durable image)
    (step : Guarded SavesTable Succeeds image op image') : Durable image' := by
  obtain ⟨inv, onDisk, valid⟩ := durable
  obtain ⟨⟨sound, saves⟩, success⟩ := step
  cases op with
  | write uOffset cb data fNoAlloc =>
    obtain ⟨result, run, final⟩ := Option.map_eq_some_iff.mp success
    obtain ⟨rc, rfl⟩ := Prod.mk.inj final
    obtain ⟨writable, -, -, taken⟩ := vdiWrite_success run rc
    have inv' := inv.write writable sound taken
    exact ⟨inv', onDisk.write inv writable saves taken,
      taken.sameShape.validated inv'.table.setUp valid⟩
  | discard uOffset cb fMarkUnused =>
    obtain ⟨result, run, final⟩ := Option.map_eq_some_iff.mp success
    obtain ⟨rc, rfl⟩ := Prod.mk.inj final
    obtain ⟨writable, -, -, -, taken⟩ := vdiDiscard_success run rc
    have inv' := inv.discard sound taken
    exact ⟨inv', onDisk.discard inv writable taken,
      taken.sameShape.validated inv'.table.setUp valid⟩
  | compact _ => exact saves.elim
  | resize _ _ => exact saves.elim

/-- After every run of calls that save what they change in the table, the image
survives a flush and a close. -/
theorem run_survives {image image' : VdiImage} {ops : List ImageOp} (starts : Starts image)
    (run : Run (Guarded SavesTable Succeeds) image ops image') : Survives image' := by
  have durable := run.invariant Durable (fun kept step => kept.step step) starts.durable
  exact durable.survives

/-! ### A differencing image -/

/-- A differencing image with one FREE block of 512 bytes. -/
def diffHeader : VdiHeader :=
  match smallHeader 1024 512 0 1 0 with
  | .v0 h => .v0 h
  | .v1 minor h g =>
      .v1 minor { h with u32Type := 4, uuidLinkage := Vector.replicate 16 2 } g

def diffFile : ByteFile := imageFile diffHeader [vdiImageBlockFree] 1024 fun _ => 0

def diffImage : VdiImage := openedImage diffFile {}

theorem diffImage_opened : vdiOpenImage diffFile {} = .ok diffImage :=
  openedImage_eq (by decide +kernel)

theorem diffImage_wellFormed : WellFormed diffImage := by
  have table : diffImage.paBlocks = [vdiImageBlockFree] := by decide +kernel
  have free : ∀ i p, ¬ HasSlot diffImage i p := by
    rintro i p ⟨entry, inUse⟩
    rw [table] at entry
    have member := List.mem_of_getElem? entry
    rw [List.mem_singleton] at member
    subst member
    exact not_isAllocated_free inUse
  constructor
  · constructor
    · decide +kernel
    · decide +kernel
    · decide +kernel
  · intro i j p slot
    exact absurd slot (free i p)
  · intro i p slot
    exact absurd slot (free i p)
  · intro i p slot
    exact absurd slot (free i p)

/-- Writing ones to the whole block takes a slot and survives. -/
theorem run_survives_diff : ∃ image',
    Run (Guarded SavesTable Succeeds) diffImage [.write 0 512 (fun _ => 1) false] image' ∧
    Survives image' := by
  obtain ⟨image', success⟩ := succeeds_of_status
    (show ((ImageOp.write 0 512 (fun _ => 1) false).exec diffImage).map Prod.fst =
      some .vinfSuccess by decide +kernel)
  have sound : Sound diffImage (.write 0 512 (fun _ => 1) false) :=
    ⟨by decide +kernel, fun _ => by decide +kernel⟩
  have saves : ¬ MarksFreeZero diffImage 0 512 (fun _ => 1) := by
    rintro ⟨-, zero⟩
    revert zero
    decide +kernel
  have run : Run (Guarded SavesTable Succeeds) diffImage [.write 0 512 (fun _ => 1) false]
      image' := .single ⟨⟨sound, saves⟩, success⟩
  exact ⟨image', run, run_survives (.opened diffImage_opened diffImage_wellFormed) run⟩

/-- The status of a read of the whole block after the given write, in the image
and in the image reopened from its file. -/
def statusAround (write : ImageOp) : Option (Option Status × Option Status) :=
  (write.exec diffImage).map fun after =>
    ((vdiRead after.2 0 512).map ReadResult.rc,
      (vdiRead (openedImage (vdiClose (vdiFlush after.2)) {}) 0 512).map ReadResult.rc)

/-- Writing zeros to the whole FREE block succeeds and the block reads as zeros,
but after the close it is FREE again and the parent shows through. -/
theorem zero_mark_lost : Starts diffImage ∧ ∃ image',
    Run (Guarded Sound Succeeds) diffImage [.write 0 512 (fun _ => 0) false] image' ∧
    ¬ Survives image' := by
  refine ⟨.opened diffImage_opened diffImage_wellFormed, ?_⟩
  obtain ⟨image', success⟩ := succeeds_of_status
    (show ((ImageOp.write 0 512 (fun _ => 0) false).exec diffImage).map Prod.fst =
      some .vinfSuccess by decide +kernel)
  have sound : Sound diffImage (.write 0 512 (fun _ => 0) false) :=
    ⟨by decide +kernel, fun _ => by decide +kernel⟩
  refine ⟨image', .single ⟨sound, success⟩, ?_⟩
  rintro ⟨-, survives⟩
  obtain ⟨reopened, result, -, reads⟩ := survives {}
  have around : statusAround (.write 0 512 (fun _ => 0) false) =
      some (some .vinfSuccess, some .verrVdBlockFree) := by decide +kernel
  have disk : 0 + 512 ≤ getImageDiskSize image'.header := by
    have size : ((ImageOp.write 0 512 (fun _ => 0) false).exec diffImage).map
        (fun after => getImageDiskSize after.2.header) = some 512 := by decide +kernel
    rw [success] at size
    exact (Option.some.inj size).ge
  have same := reads 0 512 (by decide) disk
  rw [statusAround, success] at around
  have both := Prod.mk.inj (Option.some.inj around)
  have opens : openedImage (vdiClose (vdiFlush image')) {} = reopened := by
    rw [openedImage, result]
  dsimp only at both
  rw [opens, same, both.1] at both
  cases both.2

end VBox.Storage.Vdi
