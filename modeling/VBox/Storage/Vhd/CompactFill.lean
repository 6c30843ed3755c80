import VBox.Storage.Vhd.CompactMarks

/-!
Filling the bubbles of a packed image.

`Fill` holds before each round of the loop: the positions in front are occupied, those behind are as
they were, and every block that was kept has its bytes at its position. Where the last positions all
hold blocks that are kept, every bubble costs one move and one block of the file.
-/

namespace VBox.Storage.Vhd

open VBox.Lib Function

/-! ### Positions -/

/-- Where position `p` starts. -/
def place (first cb p : Nat) : Nat := first + p * cb

section Place

variable {first cb p q : Nat}

theorem place_succ : place first cb (p + 1) = place first cb p + cb := by
  rw [place, place, Nat.succ_mul, Nat.add_assoc]

theorem place_le (le : p ≤ q) : place first cb p ≤ place first cb q :=
  Nat.add_le_add_left (Nat.mul_le_mul_right cb le) first

theorem place_lt (less : p < q) : place first cb p + cb ≤ place first cb q :=
  place_succ ▸ place_le less

theorem first_le_place : first ≤ place first cb p := Nat.le_add_right _ _

end Place

/-- The file after a move from `u` to `i`. -/
def movedFile (first cb : Nat) (footer : Buf) (file : ByteFile) (i u : Nat) : ByteFile :=
  (((file.write (place first cb i) cb (file.byte.drop (place first cb u))).setSize
    (place first cb u + cbFooter)).write 0 cbFooter footer).write (place first cb u) cbFooter footer

section Moved

variable {first cb : Nat} {footer : Buf} {file : ByteFile} {i u : Nat}

theorem movedFile_size :
    (movedFile first cb footer file i u).size = place first cb u + cbFooter := by
  rw [movedFile, ByteFile.size_write, if_neg (by decide), ByteFile.size_write, if_neg (by decide),
    ByteFile.size_setSize]
  omega

theorem movedFile_byte {x : Nat} (low : cbFooter ≤ x) (high : x < place first cb u) :
    (movedFile first cb footer file i u).byte x =
      if place first cb i ≤ x ∧ x < place first cb i + cb then
        file.byte (place first cb u + (x - place first cb i))
      else file.byte x := by
  rw [movedFile, ByteFile.byte_write_of_not_mem (.inl high),
    ByteFile.byte_write_of_not_mem (.inr (by omega)), ByteFile.byte_setSize_of_lt (by omega),
    ByteFile.byte_write]
  rfl

/-- The moved block has its bytes at its new position. -/
theorem movedFile_new (small : cbFooter ≤ first) (less : i < u) {x : Nat} (below : x < cb) :
    (movedFile first cb footer file i u).byte (place first cb i + x) =
      file.byte (place first cb u + x) := by
  have front := @place_lt first cb _ _ less
  have start := @first_le_place first cb i
  rw [movedFile_byte (by omega) (by omega), if_pos ⟨by omega, by omega⟩, Nat.add_sub_cancel_left]

/-- The other positions keep theirs. -/
theorem movedFile_other (small : cbFooter ≤ first) {p : Nat} (less : p < u) (apart : p ≠ i)
    {x : Nat} (below : x < cb) : (movedFile first cb footer file i u).byte (place first cb p + x) =
      file.byte (place first cb p + x) := by
  have front := @place_lt first cb _ _ less
  have start := @first_le_place first cb p
  rw [movedFile_byte (by omega) (by omega), if_neg]
  rcases Nat.lt_or_gt_of_ne apart with before | behind
  · have := @place_lt first cb _ _ before
    omega
  · have := @place_lt first cb _ _ behind
    omega

theorem movedFile_header {x : Nat} (low : cbFooter ≤ x) (high : x < first) :
    (movedFile first cb footer file i u).byte x = file.byte x := by
  have start := @first_le_place first cb i
  have last := @first_le_place first cb u
  rw [movedFile_byte low (by omega), if_neg (by omega)]

end Moved

/-! ### Images that can be compacted -/

/-- Followed by the footer, behind the table, and small enough for 64 bits. -/
structure Framed (disk : Disk) (start : Nat) (order : List Nat) : Prop where
  packed : Packed disk.image start order
  /-- The bitmap fills its sectors and the data its own. -/
  spaced : cbBlock disk.image = disk.image.spacing * VHD_SECTOR_SIZE
  below : start * VHD_SECTOR_SIZE < 2 ^ 32
  behind : cbFooter ≤ disk.image.uBlockAllocationTableOffset
  table : disk.image.uBlockAllocationTableOffset + 4 * disk.image.cBlockAllocationTableEntries ≤
    start * VHD_SECTOR_SIZE
  eof : disk.image.uCurrentEndOfFile =
    place (start * VHD_SECTOR_SIZE) (cbBlock disk.image) order.length
  size : disk.file.size = disk.image.uCurrentEndOfFile + cbFooter
  small : disk.file.size < 2 ^ 64

/-- The block at a position is dropped. -/
def bubble (order : List Nat) (drops : Nat → Bool) (k : Nat) : Bool := order[k]?.any drops

/-- The bubbles below a position. -/
def bubbles (order : List Nat) (drops : Nat → Bool) (k : Nat) : Nat :=
  Nat.count (fun p => bubble order drops p = true) k

section Bubbles

variable {order : List Nat} {drops : Nat → Bool}

theorem bubbles_succ (k : Nat) :
    bubbles order drops (k + 1) = bubbles order drops k + if bubble order drops k then 1 else 0 :=
  Nat.count_succ _ k

theorem bubbles_mono {k l : Nat} (le : k ≤ l) : bubbles order drops k ≤ bubbles order drops l :=
  Nat.count_monotone _ le

theorem bubbles_le (k : Nat) : bubbles order drops k ≤ k := Nat.count_le _

/-- The positions that stay occupied. -/
def occupied (order : List Nat) (drops : Nat → Bool) : Nat :=
  order.length - bubbles order drops order.length

/-- The last positions, as many as there are bubbles, hold blocks that are kept. -/
def TailKept (order : List Nat) (drops : Nat → Bool) : Prop :=
  ∀ k < order.length, occupied order drops ≤ k → bubble order drops k = false

theorem occupied_le : occupied order drops ≤ order.length := Nat.sub_le _ _

theorem TailKept.bubbles_occupied (tail : TailKept order drops) :
    bubbles order drops (occupied order drops) = bubbles order drops order.length := by
  have total : occupied order drops + bubbles order drops order.length = order.length :=
    Nat.sub_add_cancel (bubbles_le _)
  have none : Nat.count (fun p => bubble order drops (occupied order drops + p) = true)
      (bubbles order drops order.length) = 0 := by
    refine Nat.count_iff_forall_not.mpr fun k below => ?_
    rw [tail _ (by omega) (Nat.le_add_right _ _)]
    decide
  have split := Nat.count_add (fun p => bubble order drops p = true) (occupied order drops)
    (bubbles order drops order.length)
  rw [none, total] at split
  exact split.symm

/-- A bubble in front of the occupied positions has a block behind them to fill it. -/
theorem TailKept.bubbles_lt (tail : TailKept order drops) {i : Nat}
    (front : i < occupied order drops) (here : bubble order drops i = true) :
    bubbles order drops i + occupied order drops + 1 ≤ order.length := by
  have next := @bubbles_mono order drops _ _ (Nat.succ_le_of_lt front)
  rw [bubbles_succ, here, tail.bubbles_occupied] at next
  have total : occupied order drops + bubbles order drops order.length = order.length :=
    Nat.sub_add_cancel (bubbles_le _)
  simp only [if_true] at next
  omega

end Bubbles

/-! ### The loop -/

/-- A state between two rounds. -/
def fillState (before : Disk) (eof used : Nat) (table : Nat → UInt32) (file : ByteFile)
    (paBlocks : Nat → Option Nat) : CompactState :=
  { disk :=
      { image := { before.image with blockAllocationTable := table, uCurrentEndOfFile := eof }
        vhdFooterCopy := before.vhdFooterCopy
        file }
    paBlocks
    uBlockUsedPos := used }

/-- Before round `i`. -/
structure Fill (before : Disk) (start : Nat) (order : List Nat) (drops : Nat → Bool) (i : Nat)
    (table : Nat → UInt32) (file : ByteFile) (paBlocks : Nat → Option Nat) : Prop where
  size : file.size = place (start * VHD_SECTOR_SIZE) (cbBlock before.image)
    (order.length - bubbles order drops i) + cbFooter
  header : ∀ x, cbFooter ≤ x → x < start * VHD_SECTOR_SIZE → file.byte x = before.file.byte x
  ahead : ∀ k, i ≤ k → paBlocks k =
    if k < order.length - bubbles order drops i ∧ bubble order drops k = false then order[k]?
    else none
  kept : ∀ q block, order[q]? = some block → drops block = false →
    ∃ p, p < order.length - bubbles order drops i ∧ paBlocks p = some block ∧
      (table block).toNat = start + p * before.image.spacing ∧
      (∀ x < cbBlock before.image,
        file.byte (place (start * VHD_SECTOR_SIZE) (cbBlock before.image) p + x) =
          before.file.byte (place (start * VHD_SECTOR_SIZE) (cbBlock before.image) q + x)) ∧
      (i ≤ q → q < order.length - bubbles order drops i → p = q)
  dropped : ∀ block < before.image.cBlockAllocationTableEntries,
    (block ∈ order → drops block = true) → table block = freeEntry

section Fill

variable {before : Disk} {start : Nat} {order : List Nat} {drops : Nat → Bool} {i : Nat}
  {table : Nat → UInt32} {file : ByteFile} {paBlocks : Nat → Option Nat}

/-- A position with a kept block needs no move. -/
theorem Fill.keep (fill : Fill before start order drops i table file paBlocks)
    (full : bubble order drops i = false) :
    Fill before start order drops (i + 1) table file paBlocks := by
  have same : bubbles order drops (i + 1) = bubbles order drops i := by
    rw [bubbles_succ, full]
    rfl
  refine ⟨by rw [same]; exact fill.size, fill.header, fun k behind => ?_,
    fun q block here stays => ?_, fill.dropped⟩
  · rw [same]
    exact fill.ahead k (by omega)
  · obtain ⟨p, inside, mine, entry, bytes, still⟩ := fill.kept q block here stays
    exact ⟨p, same ▸ inside, mine, entry, bytes, fun behind below =>
      still (by omega) (same ▸ below)⟩

theorem moveBlock_fillState (framed : Framed before start order) {u used block : Nat}
    (inside : u < order.length) : moveBlock start
      (fillState before (place (start * VHD_SECTOR_SIZE) (cbBlock before.image) (u + 1)) used table
        file paBlocks) i u block
      (file.byte.drop (place (start * VHD_SECTOR_SIZE) (cbBlock before.image) u)) =
    fillState before (place (start * VHD_SECTOR_SIZE) (cbBlock before.image) u) u
      (update table block (UInt32.ofNat (i * before.image.spacing + start)))
      (movedFile (start * VHD_SECTOR_SIZE) (cbBlock before.image) before.vhdFooterCopy file i u)
      (update (update paBlocks i (some block)) u none) := by
  have small := framed.small
  rw [framed.size, framed.eof] at small
  have next := @place_succ (start * VHD_SECTOR_SIZE) (cbBlock before.image) u
  have shorter : u64Sub (place (start * VHD_SECTOR_SIZE) (cbBlock before.image) (u + 1))
      (cbBlock before.image) = place (start * VHD_SECTOR_SIZE) (cbBlock before.image) u := by
    rw [next, u64Sub_of_le (Nat.le_add_left _ _), Nat.add_sub_cancel]
  have room : u64 (place (start * VHD_SECTOR_SIZE) (cbBlock before.image) u + VHD_SECTOR_SIZE) =
      place (start * VHD_SECTOR_SIZE) (cbBlock before.image) u + cbFooter := by
    have current : place (start * VHD_SECTOR_SIZE) (cbBlock before.image) u ≤
        place (start * VHD_SECTOR_SIZE) (cbBlock before.image) order.length :=
      place_le (Nat.le_of_lt inside)
    exact Nat.mod_eq_of_lt (lt_of_le_of_lt (Nat.add_le_add_right current cbFooter) small)
  have offset : positionOffset before.image start i =
      place (start * VHD_SECTOR_SIZE) (cbBlock before.image) i := by
    rw [positionOffset, u32_of_lt framed.below, Nat.add_comm, place]
  have shape : ∀ table eof, cbBlock { before.image with
      blockAllocationTable := table, uCurrentEndOfFile := eof } = cbBlock before.image :=
    fun _ _ => rfl
  have offset' : ∀ table eof, positionOffset { before.image with
      blockAllocationTable := table, uCurrentEndOfFile := eof } start i =
      place (start * VHD_SECTOR_SIZE) (cbBlock before.image) i := fun _ _ => offset
  simp only [moveBlock, fillState, CompactState.setEntry, vhdUpdateFooter, movedFile, shape,
    shorter, room, offset']
  rfl

/-- A bubble is filled with the last block. -/
theorem Fill.move (framed : Framed before start order) (tail : TailKept order drops)
    (fill : Fill before start order drops i table file paBlocks)
    (front : i < occupied order drops) (here : bubble order drops i = true) :
    ∃ u block, u + 1 = order.length - bubbles order drops i ∧ i < u ∧ paBlocks u = some block ∧
      Fill before start order drops (i + 1)
        (update table block (UInt32.ofNat (i * before.image.spacing + start)))
        (movedFile (start * VHD_SECTOR_SIZE) (cbBlock before.image) before.vhdFooterCopy file i u)
        (update (update paBlocks i (some block)) u none) := by
  have room := tail.bubbles_lt front here
  have count : bubbles order drops (i + 1) = bubbles order drops i + 1 := by
    rw [bubbles_succ, here]
    rfl
  obtain ⟨u, last⟩ : ∃ u, u + 1 = order.length - bubbles order drops i :=
    ⟨order.length - bubbles order drops i - 1, by omega⟩
  have behind : i < u := by omega
  have inside : u < order.length := by omega
  have stays := tail u inside (by omega)
  have small : cbFooter ≤ start * VHD_SECTOR_SIZE :=
    le_trans framed.behind (le_trans (Nat.le_add_right _ _) framed.table)
  obtain ⟨block, there⟩ : ∃ block, order[u]? = some block :=
    ⟨order[u], List.getElem?_eq_getElem inside⟩
  have mine : paBlocks u = some block := by
    rw [fill.ahead u (by omega), if_pos ⟨by omega, stays⟩, there]
  have blockStays : drops block = false := by
    rw [bubble, there] at stays
    exact stays
  have hole : paBlocks i = none := by
    rw [fill.ahead i (Nat.le_refl i), if_neg]
    rintro ⟨-, full⟩
    exact absurd (here.symm.trans full) (by decide)
  have next : order.length - bubbles order drops (i + 1) = u := by omega
  refine ⟨u, block, last, behind, mine, ?_⟩
  refine ⟨?_, fun x low high => ?_, fun k after => ?_, fun q other position kept => ?_,
    fun other known gone => ?_⟩
  · rw [movedFile_size, next]
  · rw [movedFile_header low high]
    exact fill.header x low high
  · rw [next]
    by_cases same : k = u
    · subst same
      rw [update_self, if_neg fun inside => Nat.lt_irrefl _ inside.1]
    · rw [update_of_ne same, update_of_ne (by omega), fill.ahead k (by omega)]
      refine if_congr ?_ rfl rfl
      constructor
      · exact fun h => ⟨by omega, h.2⟩
      · exact fun h => ⟨by omega, h.2⟩
  · obtain ⟨p, inside', theirs, entry, bytes, still⟩ := fill.kept q other position kept
    by_cases same : other = block
    · subst same
      have old : q = u := framed.packed.position position there
      subst old
      have old' := still (by omega) (by omega)
      subst old'
      refine ⟨i, by omega, ?_, ?_, fun x below => ?_, fun _ below => by omega⟩
      · rw [update_of_ne (by omega), update_self]
      · have inOrder : i < order.length := by omega
        have entryBound := framed.packed.entry i order[i] (List.getElem?_eq_getElem inOrder)
        have bound := (before.image.blockAllocationTable order[i]).toNat_lt
        rw [update_self, UInt32.toNat_ofNat', Nat.mod_eq_of_lt (by omega), Nat.add_comm]
      · rw [movedFile_new small behind below]
        exact bytes x below
    · have apart : p ≠ u := by
        rintro rfl
        exact same (Option.some.inj (theirs.symm.trans mine))
      have apart' : p ≠ i := by
        rintro rfl
        exact absurd (theirs.symm.trans hole) (Option.some_ne_none _)
      refine ⟨p, by omega, ?_, ?_, fun x below => ?_, fun after below => ?_⟩
      · rw [update_of_ne apart, update_of_ne apart']
        exact theirs
      · rw [update_of_ne same]
        exact entry
      · rw [movedFile_other small (by omega) apart' below]
        exact bytes x below
      · exact still (by omega) (by omega)
  · have apart : other ≠ block := by
      rintro rfl
      have dropped := gone (List.mem_of_getElem? there)
      exact absurd (blockStays.symm.trans dropped) (by decide)
    rw [update_of_ne apart]
    exact fill.dropped other known gone

end Fill

end VBox.Storage.Vhd
