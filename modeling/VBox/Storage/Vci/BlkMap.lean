import Mathlib.Data.UInt
import Mathlib.Data.List.Chain

/-!
Block maps of the VCI cache.

A block map divides its blocks into ranges that are free or allocated, and counts the
blocks of each kind.
-/

namespace VBox.Storage.Vci

/-- A range descriptor without its links. -/
structure VciBlkRangeDesc where
  offAddrStart : Nat
  cBlocks : Nat
  fFree : Bool
  deriving DecidableEq, Repr

/-- The ranges stand in the order of the list from `pRangesHead` on. -/
structure VciBlkMap where
  cBlocks : UInt64
  cBlocksAllocMeta : UInt64
  cBlocksAllocData : UInt64
  cBlocksFree : UInt64
  ranges : List VciBlkRangeDesc
  deriving DecidableEq, Repr

/-- The ranges lie one behind the other between two addresses. -/
def GapFree : Nat → List VciBlkRangeDesc → Nat → Prop
  | off, [], stop => off = stop
  | off, r :: ranges, stop => r.offAddrStart = off ∧ GapFree (off + r.cBlocks) ranges stop

def VciBlkRangeDesc.NotBothFree (a b : VciBlkRangeDesc) : Prop :=
  ¬ (a.fFree = true ∧ b.fFree = true)

/-- The blocks of the ranges of one kind. -/
def blocksOf (fFree : Bool) (ranges : List VciBlkRangeDesc) : Nat :=
  ((ranges.filter fun r => r.fFree == fFree).map VciBlkRangeDesc.cBlocks).sum

section Ranges

variable {off mid stop : Nat} {xs ys : List VciBlkRangeDesc}

theorem gapFree_append :
    GapFree off (xs ++ ys) stop ↔ ∃ mid, GapFree off xs mid ∧ GapFree mid ys stop := by
  induction xs generalizing off with
  | nil => simp [GapFree]
  | cons r xs ih => simp [GapFree, ih, and_assoc]

end Ranges

end VBox.Storage.Vci
