import Mathlib.Data.UInt
import Mathlib.Logic.Function.Basic
import VBox.Vmm.Pdm.BlkCacheReq

/-!
Discarding ranges of the block cache.

`PDMR3BlkCacheDiscard` goes through each range by the entries it finds and drops every
entry it meets. Entries are memory blocks, which the tree, the LRU lists and the list of
what is dirty and not committed know by their addresses. Reference counts and the
counters of cached and dirty bytes are left out; no branch depends on them.
-/

namespace VBox.Vmm.Pdm

def verrNoMemory : Int := -8

/-- Ghost lists contain no data. -/
def BlkLruList.hasData (pList : BlkLruList) : Bool :=
  pList = .lruRecentlyUsedIn || pList = .lruFrequentlyUsed

/-- `PDMBLKCACHEENTRY`; the data by the offset in the entry. -/
structure PdmBlkCacheEntry where
  key : Nat
  cbData : Nat
  pbData : Nat → UInt8
  pList : BlkLruList
  ioInProgress : Bool
  isDirty : Bool

def PdmBlkCacheEntry.covers (pEntry : PdmBlkCacheEntry) (off : Nat) : Bool :=
  pEntry.key ≤ off && off < pEntry.key + pEntry.cbData

/-- A block cache over its medium. -/
structure PdmBlkCache where
  fSuspended : Bool
  mem : Nat → Option PdmBlkCacheEntry
  pTree : List Nat
  lists : BlkLruList → List Nat
  listDirtyNotCommitted : List Nat
  medium : Nat → UInt8

/-- `RTRANGE` inside the 64-bit address space. -/
structure RtRange where
  offStart : Nat
  cbRange : Nat
  fits : offStart + cbRange ≤ 2 ^ 64

def RtRange.Has (r : RtRange) (off : Nat) : Prop :=
  r.offStart ≤ off ∧ off < r.offStart + r.cbRange

/-- Why a call has no result. -/
inductive DiscardStop where
  | outOfFuel
  | usedFreed
  deriving DecidableEq, Repr

namespace PdmBlkCache

/-- `RTAvlrU64RangeGet`: the entry at an offset, with its address. -/
def pdmBlkCacheGetCacheEntryByOffset (s : PdmBlkCache) (off : Nat) :
    Option (Nat × PdmBlkCacheEntry) :=
  s.pTree.findSome? fun p => (s.mem p).bind fun pEntry =>
    if pEntry.covers off then some (p, pEntry) else none

/-- `pdmBlkCacheEntryRelease` writes to the entry. -/
def pdmBlkCacheEntryRelease (s : PdmBlkCache) (p : Nat) : Except DiscardStop PdmBlkCache :=
  if (s.mem p).isSome then .ok s else .error .usedFreed

/-- `pdmBlkCacheEntryRemoveFromList`, `RTAvlrU64Remove` and `RTMemFree`. -/
def removeEntry (s : PdmBlkCache) (p : Nat) (pEntry : PdmBlkCacheEntry) : PdmBlkCache :=
  { s with
    lists := Function.update s.lists pEntry.pList ((s.lists pEntry.pList).erase p)
    pTree := s.pTree.filter (· ≠ p)
    mem := Function.update s.mem p none }

/-- One round of the loop in `PDMR3BlkCacheDiscard`, with `cbThisDiscard`. -/
def discardPart (s : PdmBlkCache) (offCur cbLeft : Nat) :
    Except DiscardStop (PdmBlkCache × Nat) :=
  match s.pdmBlkCacheGetCacheEntryByOffset offCur with
  | none => .ok (s, 0)
  | some (p, pEntry) =>
      let offDiff := offCur - pEntry.key
      let cbThisDiscard := min (pEntry.cbData - offDiff) cbLeft
      if pEntry.pList.hasData then
        if pEntry.isDirty then
          -- the release follows on the free
          let s := if pEntry.ioInProgress then s else s.removeEntry p pEntry
          (s.pdmBlkCacheEntryRelease p).map fun s => (s, cbThisDiscard)
        else if pEntry.ioInProgress then
          (s.pdmBlkCacheEntryRelease p).map fun s => (s, cbThisDiscard)
        else .ok (s.removeEntry p pEntry, cbThisDiscard)
      else .ok (s.removeEntry p pEntry, cbThisDiscard)

/-- The `while (cbLeft)` loop. -/
def discardRange : Nat → PdmBlkCache → Nat → Nat → Except DiscardStop PdmBlkCache
  | _, s, _, 0 => .ok s
  | 0, _, _, _ + 1 => .error .outOfFuel
  | fuel + 1, s, offCur, cbLeft + 1 =>
      match s.discardPart offCur (cbLeft + 1) with
      | .error e => .error e
      | .ok (s, cbThisDiscard) =>
          discardRange fuel s (offCur + cbThisDiscard) (cbLeft + 1 - cbThisDiscard)

def discardRanges (fuel : Nat) : PdmBlkCache → List RtRange → Except DiscardStop PdmBlkCache
  | s, [] => .ok s
  | s, r :: paRanges =>
      match discardRange fuel s r.offStart r.cbRange with
      | .error e => .error e
      | .ok s => discardRanges fuel s paRanges

/-- `fReq`: `pdmBlkCacheReqAlloc` gets its memory. No round keeps the request, so that
`pdmBlkCacheReqUpdate` finds it complete. -/
def pdmR3BlkCacheDiscard (fuel : Nat) (s : PdmBlkCache) (fReq : Bool)
    (paRanges : List RtRange) : Except DiscardStop (Int × PdmBlkCache) :=
  if s.fSuspended then .ok (verrInvalidState, s)
  else if fReq then (discardRanges fuel s paRanges).map fun s => (vinfSuccess, s)
  else .ok (verrNoMemory, s)

/-- The entry's data written to the medium, and the entry clean. -/
def writtenBack (s : PdmBlkCache) (p : Nat) (pEntry : PdmBlkCacheEntry) : PdmBlkCache :=
  { s with
    medium := fun off => if pEntry.covers off then pEntry.pbData (off - pEntry.key)
      else s.medium off
    mem := Function.update s.mem p (some { pEntry with isDirty := false }) }

/-- `pdmBlkCacheEntryCommit` with the write it enqueues and its completion. -/
def pdmBlkCacheEntryCommit (s : PdmBlkCache) (p : Nat) : Except DiscardStop PdmBlkCache :=
  match s.mem p with
  | none => .error .usedFreed
  | some pEntry => .ok (s.writtenBack p pEntry)

def commitList : PdmBlkCache → List Nat → Except DiscardStop PdmBlkCache
  | s, [] => .ok s
  | s, p :: ps =>
      match s.pdmBlkCacheEntryCommit p with
      | .error e => .error e
      | .ok s => commitList s ps

def pdmBlkCacheCommit (s : PdmBlkCache) : Except DiscardStop PdmBlkCache :=
  if s.fSuspended then .ok s
  else (s.commitList s.listDirtyNotCommitted).map fun s => { s with listDirtyNotCommitted := [] }

/-- What a read finds at an offset. -/
def byteAt (s : PdmBlkCache) (off : Nat) : UInt8 :=
  match s.pdmBlkCacheGetCacheEntryByOffset off with
  | none => s.medium off
  | some (_, pEntry) =>
      if pEntry.pList.hasData then pEntry.pbData (off - pEntry.key) else s.medium off

/-- The entry at `p` is in the tree and covers `off`. -/
def At (s : PdmBlkCache) (off p : Nat) (pEntry : PdmBlkCacheEntry) : Prop :=
  p ∈ s.pTree ∧ s.mem p = some pEntry ∧ pEntry.covers off = true

/-- No two entries cover one byte. -/
def Apart (s : PdmBlkCache) : Prop :=
  ∀ off p q pEntry qEntry, s.At off p pEntry → s.At off q qEntry → p = q

/-- A cache without transfers in progress. -/
structure Quiet (s : PdmBlkCache) : Prop where
  apart : s.Apart
  idle : ∀ p ∈ s.pTree, ∀ pEntry, s.mem p = some pEntry → pEntry.ioInProgress = false
  clean : ∀ off p pEntry, s.At off p pEntry → pEntry.pList.hasData = true →
    pEntry.isDirty = false → pEntry.pbData (off - pEntry.key) = s.medium off
  dirty : ∀ p, p ∈ s.listDirtyNotCommitted ↔
    p ∈ s.pTree ∧ ∃ pEntry, s.mem p = some pEntry ∧ pEntry.isDirty = true
  data : ∀ p ∈ s.pTree, ∀ pEntry, s.mem p = some pEntry → pEntry.isDirty = true →
    pEntry.pList.hasData = true

/-- Every byte of the ranges is in an entry, no such entry is dirty, and no entry has bytes
of two ranges. -/
structure Discardable (s : PdmBlkCache) (paRanges : List RtRange) : Prop where
  covered : ∀ r ∈ paRanges, ∀ off, r.Has off →
    ∃ p pEntry, s.pdmBlkCacheGetCacheEntryByOffset off = some (p, pEntry) ∧
      pEntry.isDirty = false
  once : paRanges.Pairwise fun a b => ∀ x y, a.Has x → b.Has y →
    s.pdmBlkCacheGetCacheEntryByOffset x ≠ s.pdmBlkCacheGetCacheEntryByOffset y

/-- Every byte outside the ranges reads the same. -/
def SameOutside (s s' : PdmBlkCache) (paRanges : List RtRange) : Prop :=
  ∀ off, (∀ r ∈ paRanges, ¬ r.Has off) → s'.byteAt off = s.byteAt off

/-- The call returns, and what it leaves is as it should be. -/
def DiscardMeets (s : PdmBlkCache) (fReq : Bool) (paRanges : List RtRange) : Prop :=
  ∃ fuel rc s', s.pdmR3BlkCacheDiscard fuel fReq paRanges = .ok (rc, s') ∧
    (rtFailure rc = false → ∀ r ∈ paRanges, ∀ off, r.Has off → ∀ p pEntry,
      s'.At off p pEntry → pEntry.pList.hasData = false) ∧
    SameOutside s s' paRanges ∧
    ∃ committed, s'.pdmBlkCacheCommit = .ok committed ∧ SameOutside s committed paRanges

end PdmBlkCache

end VBox.Vmm.Pdm
