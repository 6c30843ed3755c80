import VBox.Storage.Vdi.Create

/-!
Reads return what was written.

`sectorPast` is what a sequence of calls says about a sector: the data of the
last successful write that covers it and whether a later discard covers it as
well. `run_sectorsOk` says that on every image made by `vdiCreate`, after every
sequence of sector-aligned writes and discards, each sector reads as its past
says, provided the offsets in the new image did not wrap (`LayoutFits`).
`create_overlap` is an image whose offsets wrap: its first block overlaps its
block table.
-/

namespace VBox.Storage.Vdi

open VBox.Lib

/-! ### The past of a sector -/

/-- A call with the status it returned. -/
abbrev Call := ImageOp × Status

/-- The call returns with that status. -/
def Returns (image : VdiImage) (call : Call) (image' : VdiImage) : Prop :=
  call.1.exec image = some (call.2, image')

/-- A sector-aligned write or discard inside the disk. -/
def SectorRequest (image : VdiImage) (call : Call) : Prop :=
  match call.1 with
  | .write uOffset cb _ _ | .discard uOffset cb _ =>
      512 ∣ uOffset ∧ 512 ∣ cb ∧ uOffset + cb ≤ getImageDiskSize image.header
  | .compact _ | .resize _ _ => False

/-- The request, clipped to its block, covers sector `s`. -/
def covers (uOffset cb s : Nat) : Bool :=
  uOffset ≤ 512 * s && decide (512 * s + 512 ≤
    uOffset + min cb (vdiImageDefaultBlockSize - uOffset % vdiImageDefaultBlockSize))

/-- What the calls so far say about one sector. -/
structure SectorPast where
  data : Option Buf := none
  discarded : Bool := false

/-- The past of sector `s` after one more call. -/
def SectorPast.after (s : Nat) (past : SectorPast) (call : Call) : SectorPast :=
  if call.2 ≠ .vinfSuccess then past
  else
    match call.1 with
    | .write uOffset cb data _ =>
        if covers uOffset cb s then ⟨some (data.drop (512 * s - uOffset)), false⟩ else past
    | .discard uOffset cb _ => if covers uOffset cb s then { past with discarded := true } else past
    | .compact _ | .resize _ _ => past

/-- What a sequence of calls says about sector `s`. -/
def sectorPast (calls : List Call) (s : Nat) : SectorPast := calls.foldl (SectorPast.after s) {}

/-- A successful write went to the block of sector `s`. -/
def BlockWritten (calls : List Call) (s : Nat) : Prop :=
  ∃ uOffset cb data fNoAlloc, (ImageOp.write uOffset cb data fNoAlloc, .vinfSuccess) ∈ calls ∧
    uOffset / vdiImageDefaultBlockSize = 512 * s / vdiImageDefaultBlockSize

/-! ### What a read reports -/

/-- The bytes of a sector. -/
def sectorBytes (b : Buf) : List UInt8 := (List.range 512).map b

/-- The status and the bytes `vdiRead` gives for sector `s`. -/
def readSector (image : VdiImage) (s : Nat) : Option (Status × Option (List UInt8)) :=
  (vdiRead image (512 * s) 512).map fun r => (r.rc, r.data.map sectorBytes)

/-- Sector `s` reads as its past says: FREE only if its block was never written,
else the data of the last write, or zeros where a discard came later. -/
def SectorOk (image : VdiImage) (calls : List Call) (s : Nat) : Prop :=
  (readSector image s = some (.verrVdBlockFree, none) ∧ ¬ BlockWritten calls s ∧
    (sectorPast calls s).data = none) ∨
  ∃ bytes, readSector image s = some (.vinfSuccess, some bytes) ∧
    ∀ data, (sectorPast calls s).data = some data →
      bytes = sectorBytes data ∨
        (sectorPast calls s).discarded = true ∧ bytes = sectorBytes fun _ => 0

/-- Sector `s` shows the bytes. -/
def Shows (image : VdiImage) (s : Nat) (data : Buf) : Prop :=
  ∀ k < 512, content image (512 * s + k) = some (data k)

/-- What holds between the calls so far and the image. -/
structure PastInv (args : CreateArgs) (calls : List Call) (image : VdiImage) : Prop where
  store : StoreInv image
  dense : Dense image
  blockSize : getImageBlockSize image.header = vdiImageDefaultBlockSize
  extra : image.offStartBlockData = 0
  diskSize : getImageDiskSize image.header = getImageDiskSize (createHeader args)
  free : ∀ s, content image (512 * s) = none → ¬ BlockWritten calls s
  shows : ∀ s data, (sectorPast calls s).data = some data →
    Shows image s data ∨ (sectorPast calls s).discarded = true ∧ Shows image s fun _ => 0

/-! ### One call -/

section Steps

variable {args : CreateArgs} {calls : List Call} {image image' : VdiImage}

theorem sectorPast_snoc (calls : List Call) (call : Call) (s : Nat) :
    sectorPast (calls ++ [call]) s = (sectorPast calls s).after s call := by
  rw [sectorPast, List.foldl_append]
  rfl

/-- A call that did not succeed is no part of the past. -/
theorem BlockWritten.of_failure {op : ImageOp} {rc : Status} {s : Nat}
    (failure : rc ≠ .vinfSuccess) (written : BlockWritten (calls ++ [(op, rc)]) s) :
    BlockWritten calls s := by
  obtain ⟨uOffset, cb, data, fNoAlloc, member, block⟩ := written
  rcases List.mem_append.mp member with old | new
  · exact ⟨uOffset, cb, data, fNoAlloc, old, block⟩
  · cases List.mem_singleton.mp new
    exact absurd rfl failure

/-- A discard writes nothing. -/
theorem BlockWritten.of_discard {uOffset cb : Nat} {fMarkUnused : Bool} {rc : Status} {s : Nat}
    (written : BlockWritten (calls ++ [(.discard uOffset cb fMarkUnused, rc)]) s) :
    BlockWritten calls s := by
  obtain ⟨uOffset, cb, data, fNoAlloc, member, block⟩ := written
  rcases List.mem_append.mp member with old | new
  · exact ⟨uOffset, cb, data, fNoAlloc, old, block⟩
  · cases List.mem_singleton.mp new

/-- FREE blocks show nothing at all. -/
theorem content_none_block {o o' : Nat} (nothing : content image o = none)
    (block : o' / getImageBlockSize image.header = o / getImageBlockSize image.header) :
    content image o' = none := by
  unfold content at nothing ⊢
  rw [block]
  cases entry : image.paBlocks[o / getImageBlockSize image.header]? with
  | none => rfl
  | some p =>
    rw [entry, Option.bind_some] at nothing
    rw [Option.bind_some]
    unfold pointerContent at nothing ⊢
    split at nothing
    · rename_i free
      rw [if_pos free]
    · split at nothing <;> cases nothing

section

variable (inv : PastInv args calls image)

include inv

/-- A sector-aligned request covers a sector whole or not at all. -/
theorem PastInv.covers_iff {uOffset cb s : Nat} (aligned : 512 ∣ uOffset) (whole : 512 ∣ cb) :
    (covers uOffset cb s = true ↔
      uOffset ≤ 512 * s ∧ 512 * s + 512 ≤ uOffset + clipToBlock image uOffset cb) ∧
    (covers uOffset cb s = false ↔
      512 * s + 512 ≤ uOffset ∨ uOffset + clipToBlock image uOffset cb ≤ 512 * s) := by
  obtain ⟨a, rfl⟩ := aligned
  obtain ⟨b, rfl⟩ := whole
  have clip : clipToBlock image (512 * a) (512 * b) =
      min (512 * b) (vdiImageDefaultBlockSize - 512 * a % vdiImageDefaultBlockSize) := by
    rw [clipToBlock, inv.store.table.setUp.blockOffset_eq, inv.blockSize]
  rw [clip]
  unfold covers vdiImageDefaultBlockSize
  constructor
  · rw [Bool.and_eq_true, decide_eq_true_eq, decide_eq_true_eq]
  · rw [Bool.and_eq_false_iff, decide_eq_false_iff_not, decide_eq_false_iff_not]
    omega

/-- What a step that keeps the descriptor's shape leaves of the invariant. -/
theorem PastInv.next (same : SameShape image image')
    (store : StoreInv image') (dense : Dense image') {call : Call}
    (free : ∀ s, content image' (512 * s) = none → ¬ BlockWritten (calls ++ [call]) s)
    (shows : ∀ s data, (sectorPast (calls ++ [call]) s).data = some data → Shows image' s data ∨
        (sectorPast (calls ++ [call]) s).discarded = true ∧ Shows image' s fun _ => 0) :
    PastInv args (calls ++ [call]) image' := by
  refine ⟨store, dense, ?_, ?_, ?_, free, shows⟩
  · rw [same.blockSize]
    exact inv.blockSize
  · rw [same.offStartBlockData]
    exact inv.extra
  · rw [same.diskSize]
    exact inv.diskSize

/-- A call that fails changes neither the image nor the past. -/
theorem PastInv.failed {op : ImageOp} {rc : Status} (failure : rc ≠ .vinfSuccess) :
    PastInv args (calls ++ [(op, rc)]) image := by
  have past : ∀ s, sectorPast (calls ++ [(op, rc)]) s = sectorPast calls s := by
    intro s
    rw [sectorPast_snoc, SectorPast.after, if_pos failure]
  refine inv.next ⟨rfl, rfl, rfl, rfl, rfl, rfl, rfl, Or.inl rfl⟩ inv.store inv.dense ?_ ?_
  · intro s none written
    exact inv.free s none (written.of_failure failure)
  · intro s data found
    rw [past] at found ⊢
    exact inv.shows s data found

/-- A successful write becomes the past of the sectors it covers. -/
theorem PastInv.wrote {uOffset cb : Nat} {data : Buf} {fNoAlloc : Bool} (aligned : 512 ∣ uOffset)
    (whole : 512 ∣ cb) (positive : 0 < cb) (inside : uOffset + cb ≤ getImageDiskSize image.header)
    (writable : image.uOpenFlags.readOnly = false)
    (step : WriteStep image uOffset cb data fNoAlloc image') :
    PastInv args (calls ++ [(.write uOffset cb data fNoAlloc, .vinfSuccess)]) image' := by
  have setUp := inv.store.table.setUp
  have sound := inv.dense.sound_write inv.store inside data fNoAlloc
  have shown := inv.store.write_content (show uOffset < _ by omega) step
  have same := step.sameShape
  refine inv.next same (inv.store.write writable sound step) (inv.dense.write inv.store step) ?_ ?_
  · intro s none written
    have clipPos : 0 < clipToBlock image uOffset cb := setUp.clip_pos positive
    obtain ⟨off, n, data', noAlloc, member, block⟩ := written
    rcases List.mem_append.mp member with old | new
    · have before : content image (512 * s) = .none := by
        rw [shown] at none
        split at none
        · cases none
        · exact none
      exact inv.free s before ⟨off, n, data', noAlloc, old, block⟩
    · -- the block just written shows its first byte
      cases List.mem_singleton.mp new
      rw [← inv.blockSize, ← same.blockSize] at block
      have first := content_none_block none block
      rw [shown, if_pos ⟨le_refl _, Nat.lt_add_of_pos_right clipPos⟩] at first
      cases first
  · intro s stored found
    obtain ⟨yes, no⟩ := inv.covers_iff (s := s) aligned whole
    have past := sectorPast_snoc calls (.write uOffset cb data fNoAlloc, .vinfSuccess) s
    rw [SectorPast.after, if_neg (not_not.mpr rfl)] at past
    dsimp only at past
    cases covered : covers uOffset cb s with
    | true =>
      obtain ⟨low, high⟩ := yes.mp covered
      rw [covered, if_pos rfl] at past
      rw [past] at found
      cases found
      refine Or.inl fun k below => ?_
      rw [shown, if_pos ⟨by omega, by omega⟩, Buf.drop_apply]
      congr 2
      omega
    | false =>
      have outside := no.mp covered
      rw [covered, if_neg Bool.false_ne_true] at past
      rw [past] at found ⊢
      have unchanged : ∀ k < 512, content image' (512 * s + k) = content image (512 * s + k) := by
        intro k below
        rw [shown, if_neg (by omega)]
      rcases inv.shows s stored found with still | ⟨discarded, zeros⟩
      · exact Or.inl fun k below => (unchanged k below).trans (still k below)
      · exact Or.inr ⟨discarded, fun k below => (unchanged k below).trans (zeros k below)⟩

/-- A successful discard turns the sectors it covers to zeros or leaves them. -/
theorem PastInv.discarded {uOffset cb : Nat} {fMarkUnused : Bool} (aligned : 512 ∣ uOffset)
    (whole : 512 ∣ cb) (positive : 0 < cb) (inside : uOffset + cb ≤ getImageDiskSize image.header)
    (step : DiscardStep image uOffset cb fMarkUnused image') :
    PastInv args (calls ++ [(.discard uOffset cb fMarkUnused, .vinfSuccess)]) image' := by
  have sectors : getImageBlockSize image.header / 512 % 8 = 0 := by
    rw [inv.blockSize]
    decide
  have sound := inv.dense.sound_discard inv.store inside inv.extra sectors fMarkUnused
  have small : getImageBlockSize image.header < 2 ^ 29 := by
    rw [inv.blockSize]
    decide
  obtain ⟨outsideRange, insideRange⟩ :=
    inv.store.discard_content inv.extra small sound.2.1 (show uOffset < _ by omega) step
  refine inv.next step.sameShape (inv.store.discard sound step)
    (inv.dense.discard inv.store step) ?_ ?_
  · intro s nothing written
    have before : content image (512 * s) = none := by
      by_cases here : uOffset ≤ 512 * s ∧ 512 * s < uOffset + clipToBlock image uOffset cb
      · rcases insideRange with kept | zeros
        · rw [← kept _ here.1 here.2]
          exact nothing
        · rw [zeros _ here.1 here.2] at nothing
          cases nothing
      · rw [← outsideRange _ here]
        exact nothing
    exact inv.free s before written.of_discard
  · intro s stored found
    obtain ⟨yes, no⟩ := inv.covers_iff (s := s) aligned whole
    have past := sectorPast_snoc calls (.discard uOffset cb fMarkUnused, .vinfSuccess) s
    rw [SectorPast.after, if_neg (not_not.mpr rfl)] at past
    dsimp only at past
    cases covered : covers uOffset cb s with
    | true =>
      obtain ⟨low, high⟩ := yes.mp covered
      rw [covered, if_pos rfl] at past
      rw [past] at found ⊢
      rcases insideRange with kept | zeros
      · have unchanged : ∀ k < 512,
            content image' (512 * s + k) = content image (512 * s + k) :=
          fun k below => kept _ (by omega) (by omega)
        rcases inv.shows s stored found with still | ⟨-, zeros⟩
        · exact Or.inl fun k below => (unchanged k below).trans (still k below)
        · exact Or.inr ⟨rfl, fun k below => (unchanged k below).trans (zeros k below)⟩
      · exact Or.inr ⟨rfl, fun k below => zeros _ (by omega) (by omega)⟩
    | false =>
      have outside := no.mp covered
      rw [covered, if_neg Bool.false_ne_true] at past
      rw [past] at found ⊢
      have unchanged : ∀ k < 512, content image' (512 * s + k) = content image (512 * s + k) :=
        fun k below => outsideRange _ (by omega)
      rcases inv.shows s stored found with still | ⟨discarded, zeros⟩
      · exact Or.inl fun k below => (unchanged k below).trans (still k below)
      · exact Or.inr ⟨discarded, fun k below => (unchanged k below).trans (zeros k below)⟩

/-- One sector request keeps the invariant, whatever status it returns. -/
theorem PastInv.call {call : Call} (step : Guarded SectorRequest Returns image call image') :
    PastInv args (calls ++ [call]) image' := by
  obtain ⟨op, rc⟩ := call
  obtain ⟨request, returns⟩ := step
  cases op with
  | write uOffset cb data fNoAlloc =>
    obtain ⟨aligned, whole, inside⟩ := request
    obtain ⟨result, run, final⟩ := Option.map_eq_some_iff.mp returns
    obtain ⟨rfl, rfl⟩ := Prod.mk.inj final
    by_cases success : result.rc = .vinfSuccess
    · obtain ⟨writable, positive, -, taken⟩ := vdiWrite_success run success
      rw [success]
      exact inv.wrote aligned whole positive inside writable taken
    · rw [vdiWrite_failure run success]
      exact inv.failed success
  | discard uOffset cb fMarkUnused =>
    obtain ⟨aligned, whole, inside⟩ := request
    obtain ⟨result, run, final⟩ := Option.map_eq_some_iff.mp returns
    obtain ⟨rfl, rfl⟩ := Prod.mk.inj final
    by_cases success : result.rc = .vinfSuccess
    · obtain ⟨-, positive, -, -, taken⟩ := vdiDiscard_success run success
      rw [success]
      exact inv.discarded aligned whole positive inside taken
    · rw [vdiDiscard_failure run success]
      exact inv.failed success
  | compact host => exact request.elim
  | resize cbSize lchsGeometry => exact request.elim

end

end Steps

/-! ### Runs -/

section

variable {args : CreateArgs}

theorem FreshImage.pastInv {image : VdiImage} (fresh : FreshImage args image) :
    PastInv args [] image := by
  refine ⟨fresh.store, fresh.dense, ?_, ?_, ?_, ?_, ?_⟩
  · rw [fresh.header_eq, createHeader_blockSize]
  · rw [fresh.store.table.setUp.offStartBlockData, fresh.header_eq, createHeader_extra]
  · rw [fresh.header_eq]
  · rintro s - ⟨_, _, _, _, member, -⟩
    cases member
  · intro s data found
    cases found

theorem PastInv.clip_sector {calls : List Call} {image : VdiImage} (inv : PastInv args calls image)
    (s : Nat) : clipToBlock image (512 * s) 512 = 512 := by
  rw [clipToBlock, inv.store.table.setUp.blockOffset_eq, inv.blockSize]
  unfold vdiImageDefaultBlockSize
  omega

/-- A sector read inside the disk reports the content of the sector. -/
theorem PastInv.readSector_eq {calls : List Call} {image : VdiImage}
    (inv : PastInv args calls image) {s : Nat}
    (inside : 512 * s + 512 ≤ getImageDiskSize image.header) :
    readSector image s = some (if content image (512 * s) = none then (.verrVdBlockFree, none)
      else (.vinfSuccess, some (sectorBytes fun k => (content image (512 * s + k)).getD 0))) := by
  obtain ⟨result, run, -, outcome⟩ := inv.store.vdiRead_content (by decide) inside
  rw [inv.clip_sector s] at outcome
  rw [readSector, run, Option.map_some]
  rcases outcome with ⟨free, nothing⟩ | ⟨success, data, found, shown⟩
  · rw [if_pos (nothing _ (le_refl _) (by omega)), free, vdiRead_free run free]
    rfl
  · have first := shown _ (le_refl _) (by omega)
    rw [if_neg (by rw [first]; exact Option.some_ne_none _), success, found, Option.map_some]
    refine congrArg (fun bytes => some (Status.vinfSuccess, some bytes)) ?_
    refine List.map_congr_left fun k member => ?_
    have below := List.mem_range.mp member
    rw [shown _ (by omega) (by omega), Nat.add_sub_cancel_left]
    rfl

/-- Where the invariant holds, every sector inside the disk reads as it should. -/
theorem PastInv.sectorOk {calls : List Call} {image : VdiImage} (inv : PastInv args calls image)
    {s : Nat} (inside : 512 * s + 512 ≤ getImageDiskSize image.header) :
    SectorOk image calls s := by
  have read := inv.readSector_eq inside
  -- a sector that shows some bytes is not FREE and reads as these bytes
  have shown : ∀ data : Buf, Shows image s data →
      content image (512 * s) ≠ none ∧
        (sectorBytes fun k => (content image (512 * s + k)).getD 0) = sectorBytes data := by
    intro data shows
    constructor
    · have first := shows 0 (by decide)
      rw [Nat.add_zero] at first
      rw [first]
      exact Option.some_ne_none _
    · refine List.map_congr_left fun k member => ?_
      rw [shows k (List.mem_range.mp member)]
      rfl
  by_cases nothing : content image (512 * s) = none
  · left
    rw [if_pos nothing] at read
    refine ⟨read, inv.free s nothing, ?_⟩
    cases past : (sectorPast calls s).data with
    | none => rfl
    | some data =>
      rcases inv.shows s data past with still | ⟨-, zeros⟩
      · exact absurd nothing (shown data still).1
      · exact absurd nothing (shown _ zeros).1
  · right
    rw [if_neg nothing] at read
    refine ⟨_, read, fun stored past => ?_⟩
    rcases inv.shows s stored past with still | ⟨discarded, zeros⟩
    · exact Or.inl (shown stored still).2
    · exact Or.inr ⟨discarded, (shown _ zeros).2⟩

/-- A discard changes the content of no sector it does not cover, although the
last block of the file may move. -/
theorem PastInv.discard_elsewhere {calls : List Call} {image image' : VdiImage}
    (inv : PastInv args calls image) {uOffset cb s : Nat} {fMarkUnused : Bool} {rc : Status}
    (step : Guarded SectorRequest Returns image (.discard uOffset cb fMarkUnused, rc) image')
    (inside : 512 * s + 512 ≤ getImageDiskSize image.header)
    (elsewhere : covers uOffset cb s = false) : readSector image' s = readSector image s := by
  have after := inv.call step
  have same : getImageDiskSize image'.header = getImageDiskSize image.header := by
    rw [after.diskSize, inv.diskSize]
  rw [after.readSector_eq (by rw [same]; exact inside), inv.readSector_eq inside]
  obtain ⟨⟨aligned, whole, inDisk⟩, returns⟩ := step
  obtain ⟨result, run, final⟩ := Option.map_eq_some_iff.mp returns
  obtain ⟨rfl, rfl⟩ := Prod.mk.inj final
  by_cases success : result.rc = .vinfSuccess
  · obtain ⟨-, positive, -, -, taken⟩ := vdiDiscard_success run success
    have sectors : getImageBlockSize image.header / 512 % 8 = 0 := by
      rw [inv.blockSize]
      decide
    have sound := inv.dense.sound_discard inv.store inDisk inv.extra sectors fMarkUnused
    have small : getImageBlockSize image.header < 2 ^ 29 := by
      rw [inv.blockSize]
      decide
    have kept :=
      (inv.store.discard_content inv.extra small sound.2.1 (show uOffset < _ by omega) taken).1
    have outside := (inv.covers_iff (s := s) aligned whole).2.mp elsewhere
    have unchanged : ∀ k < 512,
        content result.image (512 * s + k) = content image (512 * s + k) :=
      fun k below => kept _ (by omega)
    have bytes : (sectorBytes fun k => (content result.image (512 * s + k)).getD 0) =
        sectorBytes fun k => (content image (512 * s + k)).getD 0 := by
      refine List.map_congr_left fun k member => ?_
      rw [unchanged k (List.mem_range.mp member)]
    have first := unchanged 0 (by decide)
    rw [Nat.add_zero] at first
    rw [bytes, first]
  · rw [vdiDiscard_failure run success]

/-- No sector request is undefined; a discard needs an image opened for it. -/
theorem PastInv.defined {calls : List Call} {image : VdiImage}
    (inv : PastInv args calls image) {call : Call} (request : SectorRequest image call)
    (opened : ∀ uOffset cb fMarkUnused, call.1 = .discard uOffset cb fMarkUnused →
      image.paBlocksRev ≠ none) : ∃ result, call.1.exec image = some result := by
  obtain ⟨op, rc⟩ := call
  cases op with
  | write uOffset cb data fNoAlloc =>
    obtain ⟨-, -, inside⟩ := request
    obtain ⟨result, run⟩ := inv.store.table.write_defined
      (inv.dense.sound_write inv.store inside data fNoAlloc)
    exact ⟨_, by rw [ImageOp.exec, run]; rfl⟩
  | discard uOffset cb fMarkUnused =>
    obtain ⟨-, -, inside⟩ := request
    have sectors : getImageBlockSize image.header / 512 % 8 = 0 := by
      rw [inv.blockSize]
      decide
    obtain ⟨result, run⟩ := inv.store.table.discard_defined (opened _ _ _ rfl)
      (inv.dense.sound_discard inv.store inside inv.extra sectors fMarkUnused)
    exact ⟨_, by rw [ImageOp.exec, run]; rfl⟩
  | compact host => exact request.elim
  | resize cbSize lchsGeometry => exact request.elim

end

/-- On every image made by `vdiCreate` whose offsets do not wrap, after every
sequence of sector-aligned writes and discards each sector reads as its past
says, the next discard changes no sector it does not cover, and no further
request is undefined (a discard needs an image opened for it). -/
theorem run_sectorsOk {args : CreateArgs} {image image' : VdiImage} {calls : List Call}
    (made : MadeByCreate args image) (fits : LayoutFits args)
    (run : Run (Guarded SectorRequest Returns) image calls image') :
    (∀ s, 512 * s + 512 ≤ getImageDiskSize image'.header → SectorOk image' calls s) ∧
    (∀ uOffset cb fMarkUnused rc image'',
      Guarded SectorRequest Returns image' (.discard uOffset cb fMarkUnused, rc) image'' →
      ∀ s, 512 * s + 512 ≤ getImageDiskSize image'.header → covers uOffset cb s = false →
        readSector image'' s = readSector image' s) ∧
    ∀ call, SectorRequest image' call →
      (∀ uOffset cb fMarkUnused, call.1 = .discard uOffset cb fMarkUnused →
        image'.paBlocksRev ≠ none) → ∃ result, call.1.exec image' = some result := by
  have inv := run.history (PastInv args) (fun kept step => kept.call step)
    (made.fresh fits).pastInv
  rw [List.nil_append] at inv
  exact ⟨fun s inside => inv.sectorOk inside,
    fun _ _ _ _ _ step s inside elsewhere => inv.discard_elsewhere step inside elsewhere,
    fun call request opened => inv.defined request opened⟩

/-! ### Concrete runs -/

/-- Arguments for an image with the default data alignment. -/
def plainArgs (cbSize uImageFlags : Nat) : CreateArgs where
  cbSize := cbSize
  uImageFlags := uImageFlags
  szComment := Vector.replicate 256 0
  lchsGeometry := zeroGeometry
  uuid := Vector.replicate 16 1
  uuidModify := Vector.replicate 16 1
  cbDataAlign := vdiDataAlign
  cbFree := none

/-- The image `vdiCreate` makes; an unopened descriptor where it fails. -/
def createdImage (args : CreateArgs) : VdiImage :=
  match vdiCreate args {} with
  | .ok image => image
  | .error _ => openDesc .empty {} (createHeader args)

theorem createdImage_eq {args : CreateArgs} (ok : (vdiCreate args {}).isOk = true) :
    vdiCreate args {} = .ok (createdImage args) := by
  unfold createdImage
  cases result : vdiCreate args {} with
  | ok image => rfl
  | error rc =>
    rw [result] at ok
    cases ok

/-- A sector of a fixed image of one block is written. -/
theorem run_sectorsOk_fixed : ∃ image',
    Run (Guarded SectorRequest Returns) (createdImage (plainArgs (2 ^ 20) vdImageFlagsFixed))
      [(.write 512 512 (fun _ => 1) false, .vinfSuccess)] image' ∧
    ∀ s, 512 * s + 512 ≤ getImageDiskSize image'.header →
      SectorOk image' [(.write 512 512 (fun _ => 1) false, .vinfSuccess)] s := by
  have made : MadeByCreate (plainArgs (2 ^ 20) vdImageFlagsFixed)
      (createdImage (plainArgs (2 ^ 20) vdImageFlagsFixed)) :=
    .created (createdImage_eq (by decide +kernel))
  have fits : LayoutFits (plainArgs (2 ^ 20) vdImageFlagsFixed) :=
    ⟨by decide +kernel, by decide +kernel, by decide +kernel⟩
  obtain ⟨image', success⟩ := succeeds_of_status
    (show ((ImageOp.write 512 512 (fun _ => 1) false).exec
      (createdImage (plainArgs (2 ^ 20) vdImageFlagsFixed))).map Prod.fst = some .vinfSuccess by
        decide +kernel)
  have request : SectorRequest (createdImage (plainArgs (2 ^ 20) vdImageFlagsFixed))
      (.write 512 512 (fun _ => 1) false, .vinfSuccess) :=
    ⟨by decide, by decide, by decide +kernel⟩
  have run : Run (Guarded SectorRequest Returns)
      (createdImage (plainArgs (2 ^ 20) vdImageFlagsFixed))
      [(.write 512 512 (fun _ => 1) false, .vinfSuccess)] image' := .single ⟨request, success⟩
  exact ⟨image', run, (run_sectorsOk made fits run).1⟩

/-- A disk of 2^50 bytes has 2^30 blocks: the size of its table wraps to zero, and
table and data area both start at 1 MiB. -/
def overlapArgs : CreateArgs := plainArgs (2 ^ 50) 0

theorem overlap_offsets : getImageBlocksOffset (createHeader overlapArgs) = 2 ^ 20 ∧
    getImageDataOffset (createHeader overlapArgs) = 2 ^ 20 := by decide +kernel

theorem overlap_past :
    sectorPast [(.write 0 (2 ^ 20) (fun _ => 1) false, .vinfSuccess)] 0 =
      ⟨some (Buf.drop (fun _ => 1) 0), false⟩ := by
  have covered : covers 0 (2 ^ 20) 0 = true := by decide
  simp only [sectorPast, List.foldl_cons, List.foldl_nil, SectorPast.after, covered]
  simp

theorem sectorBytes_first {b c : Buf} (same : sectorBytes b = sectorBytes c) : b 0 = c 0 := by
  unfold sectorBytes at same
  exact List.map_inj_left.mp same 0 (List.mem_range.mpr (by decide))

/-- A zero at the start of sector 0 is not what was written. -/
theorem overlap_spoiled {image : VdiImage} {b : Buf}
    (read : readSector image 0 = some (.vinfSuccess, some (sectorBytes b))) (first : b 0 = 0) :
    ¬ SectorOk image [(.write 0 (2 ^ 20) (fun _ => 1) false, .vinfSuccess)] 0 := by
  rintro (⟨free, -, -⟩ | ⟨bytes, shown, past⟩)
  · rw [read] at free
    cases free
  · rw [read] at shown
    have shown := Option.some.inj (Prod.mk.inj (Option.some.inj shown)).2
    rw [← shown, overlap_past] at past
    rcases past _ rfl with same | ⟨discarded, -⟩
    · have heads := sectorBytes_first same
      rw [first] at heads
      cases heads
    · cases discarded

/-- Sector 0 of an image whose block 0 has slot 0. -/
theorem readSector_zero {image : VdiImage} (off : Nat) (setUp : SetUp image)
    (inside : 0 + 512 ≤ getImageDiskSize image.header) (entry : image.paBlocks[0]? = some 0)
    (place : dataOffset image 0 (blockOffset image 0) = off)
    (covered : off + 512 ≤ image.cbImage) (held : off + 512 ≤ image.file.size) :
    readSector image 0 = some (.vinfSuccess, some (sectorBytes (image.file.byte.drop off))) := by
  have atMost : clipToBlock image 0 512 ≤ 512 := Nat.min_le_left _ _
  obtain ⟨p, found, read⟩ := vdiRead_cases setUp (by decide) inside
  have block : blockIndex image 0 = 0 := by
    rw [blockIndex, Nat.zero_shiftRight]
    rfl
  rw [block, entry] at found
  cases found
  rw [readSector, Nat.mul_zero, read]
  dsimp only
  rw [if_neg (by decide), if_neg (by decide), place, if_pos (by omega), if_pos (by omega)]
  rfl

/-- A saved entry over the first bytes of block 0 spoils sector 0. -/
theorem overlap_lost {image : VdiImage} (setUp : SetUp image)
    (inside : 0 + 512 ≤ getImageDiskSize image.header) (entry : image.paBlocks[0]? = some 0)
    (place : dataOffset image 0 0 = 2 ^ 20) (covered : 2 ^ 20 + 512 ≤ image.cbImage)
    (held : 2 ^ 20 + 512 ≤ image.file.size) (first : image.file.byte (2 ^ 20) = 0) :
    ¬ SectorOk image [(.write 0 (2 ^ 20) (fun _ => 1) false, .vinfSuccess)] 0 := by
  have offset : blockOffset image 0 = 0 := by rw [setUp.blockOffset_eq, Nat.zero_mod]
  have read := readSector_zero (2 ^ 20) setUp inside entry (by rw [offset]; exact place)
    covered held
  refine overlap_spoiled read ?_
  rw [Buf.drop_apply, Nat.add_zero]
  exact first

/-- On that disk, writing ones to the whole of block 0 succeeds, but the entry of
the block is then saved over the first bytes of its data. -/
theorem create_overlap : MadeByCreate overlapArgs (createdImage overlapArgs) ∧ ∃ image',
    Run (Guarded SectorRequest Returns) (createdImage overlapArgs)
      [(.write 0 (2 ^ 20) (fun _ => 1) false, .vinfSuccess)] image' ∧
    512 * 0 + 512 ≤ getImageDiskSize image'.header ∧
    ¬ SectorOk image' [(.write 0 (2 ^ 20) (fun _ => 1) false, .vinfSuccess)] 0 := by
  have created : vdiCreate overlapArgs {} = .ok (createdImage overlapArgs) :=
    createdImage_eq (by decide +kernel)
  refine ⟨.created created, ?_⟩
  obtain ⟨accepted, made, making, rfl | ⟨readOnly, -⟩⟩ := vdiCreate_cases created
  swap
  · cases readOnly
  have setUp := vdiCreateImage_setUp accepted making
  obtain ⟨offBlocks, offData⟩ := overlap_offsets
  obtain ⟨file, cbFile, image_eq, -, -, cbFile_eq⟩ := vdiCreateImage_cases rfl making
  generalize createdImage overlapArgs = image at *
  have header : image.header = createHeader overlapArgs := by rw [image_eq]; rfl
  have rev : image.paBlocksRev = none := by rw [image_eq]; rfl
  have flags : image.uOpenFlags = {} := by rw [image_eq]; rfl
  have size : getImageBlockSize image.header = 2 ^ 20 := by rw [header]; rfl
  have count : getImageBlocksAllocated image.header = 0 := by rw [header]; decide +kernel
  have blocks : getImageBlocks image.header = 2 ^ 30 := by rw [header]; decide +kernel
  have disk : getImageDiskSize image.header = 2 ^ 50 := by rw [header]; decide +kernel
  have extra : image.offStartBlockData = 0 := by rw [setUp.offStartBlockData, header]; rfl
  have data : image.offStartData = 2 ^ 20 := by rw [setUp.offStartData, header, offData]
  have table : image.offStartBlocks = 2 ^ 20 := by rw [setUp.offStartBlocks, header, offBlocks]
  have total : image.cbTotalBlockData = 2 ^ 20 := by
    rw [setUp.cbTotalBlockData, size, header, createHeader_extra]
    decide
  have cbImage : image.cbImage = 2 ^ 20 := by
    have : image.cbImage = cbFile := by rw [image_eq]
    have dynamic : ¬ hasFlag overlapArgs.uImageFlags vdImageFlagsFixed = true := by decide
    rw [this, cbFile_eq, if_neg dynamic, offData]
  have inside : 0 < image.paBlocks.length := by
    rw [setUp.length_paBlocks, blocks]
    decide
  have entry : image.paBlocks[0]? = some vdiImageBlockFree := by
    have replicated : image.paBlocks = List.replicate (getImageBlocks image.header)
        vdiImageBlockFree := by
      have dynamic : ¬ hasFlag overlapArgs.uImageFlags vdImageFlagsFixed = true := by decide
      have same : image.paBlocks =
          createBlocks overlapArgs (getImageBlocks (createHeader overlapArgs)) := by
        rw [image_eq]
        rfl
      rw [same, createBlocks, if_neg dynamic, header]
    rw [replicated, List.getElem?_replicate_of_lt (by rw [blocks]; decide)]
  have block : blockIndex image 0 = 0 := by
    rw [blockIndex, Nat.zero_shiftRight]
    rfl
  have offset : blockOffset image 0 = 0 := by rw [setUp.blockOffset_eq, Nat.zero_mod]
  have clip : clipToBlock image 0 (2 ^ 20) = 2 ^ 20 := by
    rw [clipToBlock, offset, size]
    decide
  have place : dataOffset image 0 0 = 2 ^ 20 := by
    rw [dataOffset, data, extra, Nat.zero_mul]
    decide
  have notZero : elidesZeros image vdiImageBlockFree (2 ^ 20) (fun _ => 1) = false := by
    have ones : Buf.isZero (fun _ => 1) (2 ^ 20) = false := by
      by_contra zero
      have first := Buf.isZero_iff.mp (by simpa using zero) 0 (by decide)
      cases first
    rw [elidesZeros, ones, Bool.and_false]
  have saved : (allocDesc (writeSlot image 0 0 (2 ^ 20) fun _ => 1) 0 0).paBlocks[0]? =
      some 0 := List.getElem?_set_self inside
  have update : vdiBlockAllocUpdate (writeSlot image 0 0 (2 ^ 20) fun _ => 1) 0 0 = some
      { allocDesc (writeSlot image 0 0 (2 ^ 20) fun _ => 1) 0 0 with
        file := allocFile (writeSlot image 0 0 (2 ^ 20) fun _ => 1) 0 0 } := by
    unfold vdiBlockAllocUpdate
    rw [if_neg (by simp [writeSlot, rev]), vdiUpdateBlockInfoAsync_eq saved]
    rfl
  have write : (ImageOp.write 0 (2 ^ 20) (fun _ => 1) false).exec image = some (.vinfSuccess,
      { allocDesc (writeSlot image 0 0 (2 ^ 20) fun _ => 1) 0 0 with
        file := allocFile (writeSlot image 0 0 (2 ^ 20) fun _ => 1) 0 0 }) := by
    have writable : ¬ image.uOpenFlags.readOnly = true := by
      rw [flags]
      decide
    have nonempty : ¬ 2 ^ 20 = 0 := by decide
    rw [ImageOp.exec, vdiWrite, if_neg writable, if_neg nonempty]
    dsimp only
    rw [block, entry, clip, count, size]
    dsimp only
    rw [if_pos not_isAllocated_free, notZero, if_neg Bool.false_ne_true,
      if_pos ⟨rfl, Bool.false_ne_true⟩, update]
    rfl
  -- the image after the write still has its shape, and block 0 has slot 0
  have room : 0 + 1 ≤ getImageBlocks image.header := by
    rw [blocks]
    decide
  have setUp' : SetUp { allocDesc (writeSlot image 0 0 (2 ^ 20) fun _ => 1) 0 0 with
      file := allocFile (writeSlot image 0 0 (2 ^ 20) fun _ => 1) 0 0 } :=
    setUp.update (List.length_set ..) room
  have frame := setImageBlocksAllocated_frame image.header (0 + 1)
  have disk' : getImageDiskSize (setImageBlocksAllocated (0 + 1) image.header) = 2 ^ 50 :=
    frame.2.2.2.1.trans disk
  refine ⟨_, .single ⟨⟨by decide, by decide, by rw [disk]; decide⟩, write⟩, ?_, ?_⟩
  · exact le_of_le_of_eq (by decide) disk'.symm
  · -- the entry of block 0 was saved where the data of block 0 begins
    have firstByte : (allocFile (writeSlot image 0 0 (2 ^ 20) fun _ => 1) 0 0).byte (2 ^ 20) =
        0 := by
      have entryPlace : (writeSlot image 0 0 (2 ^ 20) fun _ => 1).offStartBlocks + 0 * 4 =
          2 ^ 20 := by simp [writeSlot, table]
      rw [allocFile, entryPlace, ByteFile.byte_write_of_mem (le_refl _) (by decide)]
      decide
    have size' : 2 ^ 20 + 2 ^ 20 ≤ (allocFile (writeSlot image 0 0 (2 ^ 20) fun _ => 1) 0 0).size :=
      calc 2 ^ 20 + 2 ^ 20 = dataOffset image 0 0 + 2 ^ 20 := by rw [place]
        _ ≤ (writeSlot image 0 0 (2 ^ 20) fun _ => 1).file.size :=
          ByteFile.end_le_write _ _ _ _ (by decide)
        _ ≤ _ := (ByteFile.size_le_write _ _ _ _).trans (ByteFile.size_le_write _ _ _ _)
    have covered : 2 ^ 20 + 512 ≤
        (allocDesc (writeSlot image 0 0 (2 ^ 20) fun _ => 1) 0 0).cbImage := by
      have grown : (allocDesc (writeSlot image 0 0 (2 ^ 20) fun _ => 1) 0 0).cbImage =
          image.cbImage + image.cbTotalBlockData := rfl
      rw [grown, cbImage, total]
      decide
    have held : 2 ^ 20 + 512 ≤
        (allocFile (writeSlot image 0 0 (2 ^ 20) fun _ => 1) 0 0).size := by
      refine le_trans ?_ size'
      decide
    refine overlap_lost setUp' ?_ saved ?_ covered held firstByte
    · exact le_of_le_of_eq (by decide) disk'.symm
    · have data' : (allocDesc (writeSlot image 0 0 (2 ^ 20) fun _ => 1) 0 0).offStartData =
          2 ^ 20 := data
      have extra' :
          (allocDesc (writeSlot image 0 0 (2 ^ 20) fun _ => 1) 0 0).offStartBlockData = 0 := extra
      rw [dataOffset]
      simp only [data', extra', Nat.zero_mul]
      decide

end VBox.Storage.Vdi
