import VBox.Storage.Vhd.Compact
import Mathlib.Data.Nat.Count
import Mathlib.Data.List.Perm.Basic
import Mathlib.Data.List.Nodup

/-!
The loops of `vhdCompact` that look for blocks.

The blocks of a packed image are listed in the order of their positions, `order`. Where the division
in `idxBlock` gives a block's position back, the back resolving table is that list, and dropping
redundant blocks takes them out of the list and out of the table.
-/

namespace VBox.Storage.Vhd

open VBox.Lib List Function

/-- The sectors of a block with its bitmap. -/
def VhdImage.spacing (image : VhdImage) : Nat :=
  image.cSectorsPerDataBlock + image.cDataBlockBitmapSectors

/-- The allocated blocks lie one behind the other from sector `start` on, in this order. -/
structure Packed (image : VhdImage) (start : Nat) (order : List Nat) : Prop where
  nodup : order.Nodup
  mem_iff : ∀ block, block ∈ order ↔
    block < image.cBlockAllocationTableEntries ∧ image.allocated block = true
  entry : ∀ k block, order[k]? = some block →
    (image.blockAllocationTable block).toNat = start + k * image.spacing

/-- The division by the data sectors alone gives a position back. -/
def Resolves (image : VhdImage) (order : List Nat) : Prop :=
  ∀ k < order.length, k * image.spacing / image.cSectorsPerDataBlock = k

section Packed

variable {image : VhdImage} {start : Nat} {order : List Nat}

theorem mem_blocks {block : Nat} :
    block ∈ image.blocks ↔ block < image.cBlockAllocationTableEntries := mem_range

theorem Packed.filter_perm (packed : Packed image start order) :
    Perm (image.blocks.filter image.allocated) order := by
  refine (perm_ext_iff_of_nodup (nodup_range.filter _) packed.nodup).mpr fun block => ?_
  rw [mem_filter, packed.mem_iff, ← mem_blocks]
  rfl

theorem Packed.cBlocksAllocated (packed : Packed image start order) :
    cBlocksAllocated image = order.length := packed.filter_perm.length_eq

theorem foldl_min_entry (table : Nat → UInt32) (blocks : List Nat) (first : Nat) :
    blocks.foldl (fun start block => min start (table block).toNat) first ≤ first ∧
      ∀ block ∈ blocks, blocks.foldl (fun start block => min start (table block).toNat) first ≤
        (table block).toNat := by
  induction blocks generalizing first with
  | nil => exact ⟨Nat.le_refl _, fun _ member => (not_mem_nil member).elim⟩
  | cons block rest ih =>
    obtain ⟨below, all⟩ := ih (min first (table block).toNat)
    exact ⟨le_trans below (Nat.min_le_left _ _),
      forall_mem_cons.mpr ⟨le_trans below (Nat.min_le_right _ _), all⟩⟩

theorem le_foldl_min_entry {table : Nat → UInt32} {blocks : List Nat} {first bound : Nat}
    (below : bound ≤ first) (all : ∀ block ∈ blocks, bound ≤ (table block).toNat) :
    bound ≤ blocks.foldl (fun start block => min start (table block).toNat) first := by
  induction blocks generalizing first with
  | nil => exact below
  | cons block rest ih =>
    obtain ⟨head, tail⟩ := forall_mem_cons.mp all
    exact ih (Nat.le_min.mpr ⟨below, head⟩) tail

section

variable (packed : Packed image start order)

include packed

theorem Packed.start_le {block : Nat} (member : block ∈ order) :
    start ≤ (image.blockAllocationTable block).toNat := by
  obtain ⟨k, here⟩ := mem_iff_getElem?.mp member
  rw [packed.entry k block here]
  exact Nat.le_add_right _ _

theorem Packed.offBlocksStart (nonempty : order ≠ []) : offBlocksStart image = start := by
  have inOrder : ∀ block ∈ image.blocks.filter image.allocated, block ∈ order :=
    fun block member => packed.filter_perm.mem_iff.mp member
  obtain ⟨first, rest, rfl⟩ := exists_cons_of_ne_nil nonempty
  have head := packed.entry 0 first rfl
  rw [Nat.zero_mul, Nat.add_zero] at head
  have bounds := foldl_min_entry image.blockAllocationTable (image.blocks.filter image.allocated)
    freeEntry.toNat
  apply le_antisymm
  · rw [← head]
    exact bounds.2 first (packed.filter_perm.mem_iff.mpr mem_cons_self)
  · refine le_foldl_min_entry ?_ fun block member => packed.start_le (inOrder block member)
    rw [← head]
    exact UInt32.le_iff_toNat_le.mp (UInt32.le_iff_toNat_le.mpr
      (Nat.le_of_lt_succ (image.blockAllocationTable first).toNat_lt))

theorem Packed.idxBlock (resolves : Resolves image order) {k block : Nat}
    (here : order[k]? = some block) : idxBlock image start block = k := by
  rw [Vhd.idxBlock, packed.entry k block here, Nat.add_sub_cancel_left]
  exact resolves k (List.getElem?_eq_some_iff.mp here).1

/-- A block has one position. -/
theorem Packed.position {k l block : Nat} (here : order[k]? = some block)
    (there : order[l]? = some block) : k = l := by
  obtain ⟨inside, rfl⟩ := List.getElem?_eq_some_iff.mp here
  obtain ⟨inside', same⟩ := List.getElem?_eq_some_iff.mp there
  exact (packed.nodup.getElem_inj_iff.mp same).symm

end

/-! ### The back resolving table -/

theorem Packed.backResolve (packed : Packed image start order) (resolves : Resolves image order)
    {blocks : List Nat} (nodup : blocks.Nodup)
    (inTable : ∀ block ∈ blocks, block < image.cBlockAllocationTableEntries)
    {paBlocks : Nat → Option Nat}
    (free : ∀ k block, order[k]? = some block → block ∈ blocks → paBlocks k = none) :
    ∃ resolved, backResolve image start order.length blocks paBlocks = some resolved ∧
      ∀ k, resolved k =
        (order[k]?.filter fun block => decide (block ∈ blocks)).or (paBlocks k) := by
  induction blocks generalizing paBlocks with
  | nil => exact ⟨paBlocks, rfl, fun k => by simp⟩
  | cons block rest ih =>
    obtain ⟨fresh, nodup⟩ := nodup_cons.mp nodup
    have others : ∀ block ∈ rest, block < image.cBlockAllocationTableEntries :=
      fun other member => inTable other (mem_cons_of_mem block member)
    rw [Vhd.backResolve]
    by_cases allocated : image.allocated block = true
    · have member := (packed.mem_iff block).mpr ⟨inTable block mem_cons_self, allocated⟩
      obtain ⟨k, here⟩ := mem_iff_getElem?.mp member
      have inside := (List.getElem?_eq_some_iff.mp here).1
      have empty := free k block here mem_cons_self
      rw [if_pos allocated, packed.idxBlock resolves here, if_pos ⟨inside, empty⟩]
      have free' : ∀ l other, order[l]? = some other → other ∈ rest →
          update paBlocks k (some block) l = none := by
        intro l other there member'
        have apart : l ≠ k := by
          intro same
          have equal : other = block := Option.some.inj (by rw [← there, ← here, same])
          exact fresh (equal ▸ member')
        rw [update_of_ne apart]
        exact free l other there (mem_cons_of_mem block member')
      obtain ⟨resolved, found, all⟩ := ih nodup others free'
      refine ⟨resolved, found, fun l => ?_⟩
      rw [all l]
      by_cases same : l = k
      · subst same
        simp [here, Option.filter, fresh]
      · rw [update_of_ne same]
        cases there : order[l]? with
        | none => rfl
        | some other =>
          have apart : other ≠ block := fun equal =>
            same (packed.position (equal ▸ there) here)
          simp [Option.filter, apart]
    · obtain ⟨resolved, found, all⟩ := ih nodup others fun k other there member' =>
        free k other there (mem_cons_of_mem block member')
      rw [if_neg allocated]
      refine ⟨resolved, found, fun l => ?_⟩
      rw [all l]
      cases there : order[l]? with
      | none => rfl
      | some other =>
        have apart : other ≠ block := fun equal =>
          allocated (equal ▸ ((packed.mem_iff other).mp (mem_of_getElem? there)).2)
        simp [Option.filter, apart]

theorem Packed.resolved (packed : Packed image start order) (resolves : Resolves image order) :
    Vhd.backResolve image start order.length image.blocks (fun _ => none) =
      some fun k => order[k]? := by
  obtain ⟨resolved, found, all⟩ := @Packed.backResolve _ _ _ packed resolves image.blocks
    nodup_range (fun block member => mem_blocks.mp member) (fun _ => none)
    fun _ _ _ _ => rfl
  rw [found]
  congr 1
  funext k
  rw [all k]
  cases here : order[k]? with
  | none => rfl
  | some block =>
    have member := mem_blocks.mpr ((packed.mem_iff block).mp (mem_of_getElem? here)).1
    simp [Option.filter, member]

/-! ### Dropping redundant blocks -/

/-- A disk with another table. -/
def Disk.withTable (disk : Disk) (table : Nat → UInt32) : Disk :=
  { disk with image := { disk.image with blockAllocationTable := table } }

theorem redundant_withTable (host : CompactHost) (disk : Disk) {table : Nat → UInt32} {block : Nat}
    (same : table block = disk.image.blockAllocationTable block) :
    redundant host (disk.withTable table) block = redundant host disk block := by
  simp only [redundant, VhdImage.allocated, blockDataOffset, Disk.withTable, same]
  rfl

theorem dropRedundant_eq {host : CompactHost} {disk : Disk}
    (packed : Packed disk.image start order) (resolves : Resolves disk.image order)
    {drops : Nat → Bool} (goes : ∀ call, host.cancels call = false) {blocks : List Nat}
    (judged : ∀ block ∈ blocks, redundant host disk block = some (drops block))
    (nodup : blocks.Nodup)
    (inTable : ∀ block ∈ blocks, block < disk.image.cBlockAllocationTableEntries)
    {table : Nat → UInt32}
    (same : ∀ block ∈ blocks, table block = disk.image.blockAllocationTable block)
    (paBlocks : Nat → Option Nat) (used : Nat) :
    dropRedundant host start blocks ⟨disk.withTable table, paBlocks, used⟩ =
      (none, ⟨disk.withTable fun block =>
          if block ∈ blocks ∧ drops block = true then freeEntry else table block,
        fun k => if order[k]?.any (fun block => decide (block ∈ blocks) && drops block) then none
          else paBlocks k, used⟩) := by
  induction blocks generalizing table paBlocks with
  | nil => simp [dropRedundant]
  | cons block rest ih =>
    obtain ⟨fresh, nodup⟩ := nodup_cons.mp nodup
    obtain ⟨judgedHead, judged⟩ := forall_mem_cons.mp judged
    obtain ⟨inside, inTable⟩ := forall_mem_cons.mp inTable
    obtain ⟨sameHead, same⟩ := forall_mem_cons.mp same
    have both : ∀ {table table' : Nat → UInt32} {positions positions' : Nat → Option Nat},
        table = table' → positions = positions' →
        ((none, ⟨disk.withTable table, positions, used⟩) : Option CompactError × CompactState) =
          (none, ⟨disk.withTable table', positions', used⟩) := by
      rintro _ _ _ _ rfl rfl
      rfl
    rw [dropRedundant, redundant_withTable host disk sameHead, judgedHead]
    simp only [goes block, Bool.false_eq_true, if_false]
    cases drop : drops block with
    | false =>
      rw [if_neg (by decide), ih judged nodup inTable same]
      refine both (funext fun other => ?_) (funext fun k => ?_)
      · refine if_congr ?_ rfl rfl
        rw [mem_cons]
        constructor
        · exact fun h => ⟨.inr h.1, h.2⟩
        · rintro ⟨rfl | member, dropped⟩
          · exact absurd (drop.symm.trans dropped) (by decide)
          · exact ⟨member, dropped⟩
      · cases here : order[k]? with
        | none => rfl
        | some other =>
          by_cases equal : other = block
          · subst equal
            simp [drop]
          · simp [equal]
    | true =>
      have allocated : disk.image.allocated block = true := by
        unfold redundant at judgedHead
        split at judgedHead
        · assumption
        · exact absurd ((Option.some.inj judgedHead).trans drop) (by decide)
      obtain ⟨k, here⟩ := mem_iff_getElem?.mp ((packed.mem_iff block).mpr ⟨inside, allocated⟩)
      have freed : freeBlock start ⟨disk.withTable table, paBlocks, used⟩ block =
          ⟨disk.withTable (update table block freeEntry),
            update paBlocks k none, used⟩ := by
        have index : idxBlock (disk.withTable table).image start block = k := by
          rw [← packed.idxBlock resolves here]
          simp only [idxBlock, Disk.withTable, sameHead]
        simp only [freeBlock, CompactState.setEntry, index]
        rfl
      have same' : ∀ other ∈ rest, update table block freeEntry other =
          disk.image.blockAllocationTable other := by
        intro other member
        have apart : other ≠ block := fun equal => fresh (equal ▸ member)
        rw [update_of_ne apart]
        exact same other member
      rw [if_pos rfl, freed, ih judged nodup inTable same']
      refine both (funext fun other => ?_) (funext fun l => ?_)
      · by_cases equal : other = block
        · subst equal
          simp [fresh, drop]
        · rw [update_of_ne equal]
          refine if_congr ?_ rfl rfl
          simp [equal]
      · by_cases equal : l = k
        · subst equal
          simp [here, drop]
        · rw [update_of_ne equal]
          cases there : order[l]? with
          | none => rfl
          | some other =>
            have apart : other ≠ block := fun same =>
              equal (packed.position (same ▸ there) here)
            simp [apart]

end Packed

end VBox.Storage.Vhd
