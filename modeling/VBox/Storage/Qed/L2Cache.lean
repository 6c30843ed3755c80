import VBox.Storage.Basic
import Mathlib.Logic.Function.Basic

/-!
The L2 table cache of a QED image.

An entry is its address. The lists hold the addresses of their entries from the head on; the
pointer a loop ends with when it finds nothing is the one computed from the list's head, and the
code compares it with the one of the search list in either case.
-/

namespace VBox.Storage.Qed

def QED_L2_CACHE_MEMORY_MAX : Nat := 2 * 2 ^ 20

/-- The places of the list nodes in an entry. `ListLru` is directly behind `ListSearch` in the image. -/
def offsetofNodeSearch : Nat := 0
def offsetofNodeLru : Nat := 16
def sizeofListNode : Nat := 16

/-- `QEDL2CACHEENTRY`. -/
structure L2Entry where
  cRefs : Nat
  offL2Tbl : Nat
  paL2Tbl : Nat → Nat

/-- The cache fields of `QEDIMAGE`. -/
structure L2Cache where
  addrListSearch : Nat
  cbTable : Nat
  cbL2Cache : Nat
  listSearch : List Nat
  listLru : List Nat
  entry : Nat → L2Entry

namespace L2Cache

variable (cache : L2Cache)

/-- The offset of an entry's table. -/
def off (p : Nat) : Nat := (cache.entry p).offL2Tbl

/-- The pointers that stand for the heads of the lists. -/
def dummySearch : Nat := cache.addrListSearch - offsetofNodeSearch
def dummyLru : Nat := cache.addrListSearch + sizeofListNode - offsetofNodeLru

def setEntry (p : Nat) (entry : L2Entry) : L2Cache :=
  { cache with entry := Function.update cache.entry p entry }

/-- `qedL2TblCacheRetain`. -/
def retain (offL2Tbl : Nat) : Option (Nat × L2Cache) :=
  let pL2Entry := (cache.listSearch.find? fun p => cache.off p = offL2Tbl).getD cache.dummySearch
  if pL2Entry ≠ cache.dummySearch then
    some (pL2Entry,
      { cache with listLru := pL2Entry :: cache.listLru.erase pL2Entry }.setEntry pL2Entry
        { cache.entry pL2Entry with cRefs := (cache.entry pL2Entry).cRefs + 1 })
  else none

/-- `qedL2TblCacheEntryRelease`. -/
def release (p : Nat) : L2Cache :=
  cache.setEntry p { cache.entry p with cRefs := (cache.entry p).cRefs - 1 }

/-- `qedL2TblCacheEntryAlloc`; `mem` is what the allocations of an entry and its table return. -/
def alloc (mem : Option Nat) : Option (Nat × L2Cache) :=
  if cache.cbL2Cache + cache.cbTable ≤ QED_L2_CACHE_MEMORY_MAX then
    mem.map fun p =>
      (p, { cache with cbL2Cache := cache.cbL2Cache + cache.cbTable }.setEntry p ⟨1, 0, fun _ => 0⟩)
  else
    let pL2Entry := (cache.listLru.reverse.find? fun p => (cache.entry p).cRefs = 0).getD
      cache.dummyLru
    if pL2Entry ≠ cache.dummySearch then
      some (pL2Entry,
        { cache with
          listSearch := cache.listSearch.erase pL2Entry
          listLru := cache.listLru.erase pL2Entry }.setEntry pL2Entry
            { cache.entry pL2Entry with offL2Tbl := 0, cRefs := 1 })
    else none

/-- `qedL2TblCacheEntryFree`. -/
def free : L2Cache := { cache with cbL2Cache := cache.cbL2Cache - cache.cbTable }

/-- The loop of `qedL2TblCacheEntryInsert`: behind the first entry with a smaller offset. -/
def insertBehind (p : Nat) : List Nat → List Nat
  | [] => []
  | pIt :: rest =>
    if cache.off pIt < cache.off p then pIt :: p :: rest else pIt :: insertBehind p rest

/-- The search list with an entry inserted. -/
def insertSearch (p : Nat) : List Nat :=
  match cache.listSearch with
  | [] => [p]
  | pIt :: rest =>
    if cache.off p < cache.off pIt then p :: pIt :: rest
    else cache.insertBehind p (pIt :: rest)

/-- `qedL2TblCacheEntryInsert`. -/
def insert (p : Nat) : L2Cache :=
  { cache with
    listLru := p :: cache.listLru
    listSearch := cache.insertSearch p }

/-- `qedL2TblCacheFetch` and `qedL2TblCacheFetchAsync`: the entry returned, if any, and the cache.
A read that is only in progress has failed. -/
def fetch (disk : Nat → Nat → Nat) (offL2Tbl : Nat) (mem : Option Nat) (fRead : Bool) :
    Option Nat × L2Cache :=
  match cache.retain offL2Tbl with
  | some (p, cache) => (some p, cache)
  | none =>
    match cache.alloc mem with
    | none => (none, cache)
    | some (p, cache) =>
      if fRead then
        (some p, (cache.setEntry p ⟨(cache.entry p).cRefs, offL2Tbl, disk offL2Tbl⟩).insert p)
      else
        (none, ((cache.setEntry p { cache.entry p with offL2Tbl }).release p).free)

end L2Cache

/-! ### The calls -/

/-- The cache in use: the entries handed out for new tables, the references the requests hold, one
for each time, and the tables on the disk. -/
structure CacheState where
  cache : L2Cache
  fresh : List Nat
  held : List Nat
  disk : Nat → Nat → Nat

/-- What `qedWrite`, `qedConvertToImageOffset` and the allocation of clusters do with the cache. -/
inductive CacheCall where
  /-- Fetch the table an L1 entry refers to. -/
  | fetch (offL2Tbl : Nat) (mem : Option Nat) (fRead : Bool)
  /-- Take an entry for a new table at an offset. -/
  | alloc (offL2Tbl : Nat) (mem : Option Nat)
  /-- The new table has been written and linked. -/
  | insert (p : Nat)
  /-- The allocation of the new table has failed; `qedWrite` does not release the entry. -/
  | free (p : Nat) (fRelease : Bool)
  /-- A cluster has been linked into a table. -/
  | link (p idxL2 offData : Nat)
  | release (p : Nat)
  deriving DecidableEq

/-- Memory for a new entry is not in use. -/
def CacheState.Unused (s : CacheState) (mem : Option Nat) : Prop :=
  ∀ p ∈ mem, p ∉ s.cache.listSearch ∧ p ∉ s.fresh ∧ p ≠ s.cache.dummySearch

instance (s : CacheState) (mem : Option Nat) : Decidable (s.Unused mem) := by
  unfold CacheState.Unused
  infer_instance

/-- The state after a call, for a call that can be made. -/
def CacheState.next (s : CacheState) : CacheCall → Option CacheState
  | .fetch offL2Tbl mem fRead =>
    if s.Unused mem then
      let (found, cache) := s.cache.fetch s.disk offL2Tbl mem fRead
      some { s with cache, held := found.toList ++ s.held }
    else none
  | .alloc offL2Tbl mem =>
    if s.Unused mem then
      match s.cache.alloc mem with
      | none => some s
      | some (p, cache) =>
        some { s with
          cache := cache.setEntry p ⟨(cache.entry p).cRefs, offL2Tbl, fun _ => 0⟩
          fresh := p :: s.fresh }
    else none
  | .insert p =>
    if p ∈ s.fresh then
      some
        { cache := s.cache.insert p
          fresh := s.fresh.erase p
          held := p :: s.held
          disk := Function.update s.disk (s.cache.off p) (s.cache.entry p).paL2Tbl }
    else none
  | .free p fRelease =>
    if p ∈ s.fresh then
      some { s with
        cache := (if fRelease then s.cache.release p else s.cache).free
        fresh := s.fresh.erase p }
    else none
  | .link p idxL2 offData =>
    if p ∈ s.held then
      let table := Function.update (s.cache.entry p).paL2Tbl idxL2 offData
      some { s with
        cache := s.cache.setEntry p { s.cache.entry p with paL2Tbl := table }
        disk := Function.update s.disk (s.cache.off p)
          (Function.update (s.disk (s.cache.off p)) idxL2 offData) }
    else none
  | .release p =>
    if p ∈ s.held then
      some { s with cache := s.cache.release p, held := s.held.erase p }
    else none

end VBox.Storage.Qed
