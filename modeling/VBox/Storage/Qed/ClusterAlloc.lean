import VBox.Storage.Qed.Image
import VBox.Storage.Qed.L2Cache
import VBox.Lib.Codec

/-!
Writing a whole cluster that is not allocated to a QED image.

`qedWrite` submits the first transfer and `qedAsyncClusterAllocUpdate` the others, in the submitter where
a transfer succeeds at once and in the completion callback where it does not. A transfer that fails
leaves the file as it was. The callback's own status is dropped by the caller; a request is
continued with the status of its transfer where the callback returns success.
-/

namespace VBox.Storage.Qed

open VBox.Lib

/-- `QEDCLUSTERASYNCALLOCSTATE`. -/
inductive AllocState where
  | l2Alloc
  | l2Link
  | userAlloc
  | userLink
  deriving DecidableEq, Repr

/-- `QEDCLUSTERASYNCALLOC`. -/
structure ClusterAlloc where
  enmAllocState : AllocState
  cbImageOld : Nat
  idxL1 : Nat
  idxL2 : Nat
  offClusterNew : Nat
  pL2Entry : Nat
  cbToWrite : Nat

/-- What an allocation changes of the image, its cache and its file. -/
structure Store where
  cbCluster : Nat
  cTableEntries : Nat
  cbTable : Nat
  offL1Table : Nat
  cbImage : Nat
  paL1Table : Nat → Nat
  cache : L2Cache
  l1Disk : Nat → Nat
  l2Disk : Nat → Nat → Nat
  dataDisk : Nat → Buf
  cbFile : Nat

/-- A request. What happened to it and to its state object is kept as a record. -/
structure Request where
  store : Store
  alloc : ClusterAlloc
  /-- A completion callback is running. -/
  fCallback : Bool
  fReported : Bool
  cFreed : Nat
  fFreedListed : Bool

/-- How a transfer ends: in its callback or at once, with success or not. -/
structure TransferAnswer where
  fAsync : Bool
  fOk : Bool

/-- `qedClusterAllocate`; the product is computed in 32 bits. -/
def qedClusterAllocate (store : Store) (cClusters : Nat) : Nat × Store :=
  (store.cbImage, { store with cbImage := u64 (store.cbImage + u32 (cClusters * store.cbCluster)) })

/-- `RTMemFree` of the state object. -/
def Request.freeAlloc (s : Request) : Request := { s with cFreed := s.cFreed + 1 }

def Request.releaseEntry (s : Request) : Request :=
  { s with store := { s.store with cache := s.store.cache.release s.alloc.pL2Entry } }

def Request.freeEntry (s : Request) : Request :=
  { s with
    store := { s.store with cache := s.store.cache.free }
    fFreedListed := s.fFreedListed || decide (s.alloc.pL2Entry ∈ s.store.cache.listSearch) }

/-- `qedAsyncClusterAllocRollback`; setting the size succeeds. -/
def qedAsyncClusterAllocRollback (s : Request) : Request :=
  let s := { s with store := { s.store with cbFile := s.alloc.cbImageOld } }
  match s.alloc.enmAllocState with
  | .l2Alloc => s.releaseEntry.freeEntry.freeAlloc
  | .l2Link => s.releaseEntry.freeEntry.freeAlloc
  | .userAlloc => s.releaseEntry.freeAlloc
  | .userLink => s.releaseEntry.freeAlloc

/-- A transfer of the allocation: what it does to the file, how the code goes on, and what it does if the
transfer fails at once. A failed completion rolls back and is reported. -/
def transfer (answer : TransferAnswer) (effect : Store → Store) (go failed : Request → Request)
    (s : Request) : Request :=
  match answer.fAsync, answer.fOk with
  | false, true => go { s with store := effect s.store }
  | true, true => go { s with store := effect s.store, fCallback := true }
  | false, false => { failed s with fReported := !s.fCallback }
  | true, false => { qedAsyncClusterAllocRollback s with fReported := true }

/-- Writing `cb` bytes at `off` makes the file at least that long. -/
def Store.grow (store : Store) (off cb : Nat) : Store :=
  { store with cbFile := max store.cbFile (off + cb) }

def writeL2Table (off : Nat) (table : Nat → Nat) (store : Store) : Store :=
  { store.grow off store.cbTable with l2Disk := Function.update store.l2Disk off table }

def writeL1Link (idxL1 off : Nat) (store : Store) : Store :=
  { store with l1Disk := Function.update store.l1Disk idxL1 off }

def writeUser (off cb : Nat) (user : Buf) (store : Store) : Store :=
  { store.grow off cb with dataDisk := Function.update store.dataDisk off user }

def writeL2Link (offL2Tbl idxL2 off : Nat) (store : Store) : Store :=
  { store with
    l2Disk := Function.update store.l2Disk offL2Tbl
      (Function.update (store.l2Disk offL2Tbl) idxL2 off) }

section

variable (answer : AllocState → TransferAnswer) (user : Buf)

/-- `qedAsyncClusterAllocUpdate` from the case `QEDCLUSTERASYNCALLOCSTATE_USER_LINK` on. -/
def updateUserLink (s : Request) : Request :=
  let entry := s.store.cache.entry s.alloc.pL2Entry
  let linked :=
    { s with
      store :=
        { s.store with
          cache := s.store.cache.setEntry s.alloc.pL2Entry
            { entry with
              paL2Tbl := Function.update entry.paL2Tbl s.alloc.idxL2 s.alloc.offClusterNew } } }
  linked.releaseEntry.freeAlloc

/-- From the case `QEDCLUSTERASYNCALLOCSTATE_USER_ALLOC` on. After a failure the state object is freed
again. -/
def updateUserAlloc (s : Request) : Request :=
  let s := { s with alloc := { s.alloc with enmAllocState := .userLink } }
  transfer (answer .userLink)
    (writeL2Link (s.store.paL1Table s.alloc.idxL1) s.alloc.idxL2 s.alloc.offClusterNew)
    updateUserLink (fun s => (qedAsyncClusterAllocRollback s).freeAlloc) s

/-- From the case `QEDCLUSTERASYNCALLOCSTATE_L2_LINK` on. -/
def updateL2Link (s : Request) : Request :=
  let (offData, store) := qedClusterAllocate s.store 1
  let s :=
    { s with
      store :=
        { store with
          paL1Table := Function.update store.paL1Table s.alloc.idxL1
            (store.cache.off s.alloc.pL2Entry)
          cache := store.cache.insert s.alloc.pL2Entry }
      alloc :=
        { s.alloc with
          enmAllocState := .userAlloc
          cbImageOld := offData
          offClusterNew := offData } }
  transfer (answer .userAlloc) (writeUser offData s.alloc.cbToWrite user) (updateUserAlloc answer)
    (fun s => (qedAsyncClusterAllocRollback s).freeAlloc) s

/-- From the case `QEDCLUSTERASYNCALLOCSTATE_L2_ALLOC` on. -/
def updateL2Alloc (s : Request) : Request :=
  let s := { s with alloc := { s.alloc with enmAllocState := .l2Link } }
  transfer (answer .l2Link)
    (writeL1Link s.alloc.idxL1 (s.store.cache.off s.alloc.pL2Entry))
    (updateL2Link answer user) qedAsyncClusterAllocRollback s

/-- A new request. -/
def startRequest (store : Store) (alloc : ClusterAlloc) : Request :=
  { store, alloc, fCallback := false, fReported := false, cFreed := 0, fFreedListed := false }

/-- `qedWrite` of a whole cluster that is not allocated, to its end. `fAlloc` and `mem` are the outcomes of
the allocations; without memory there is no allocation to undo. -/
def qedWriteAlloc (store : Store) (idxL1 idxL2 : Nat) (fAlloc : Bool) (mem : Option Nat)
    (fRead : Bool) : Option Request :=
  if !fAlloc then none
  else if store.paL1Table idxL1 = 0 then
    match store.cache.alloc mem with
    | none => none
    | some (p, cache) =>
      let (offL2Tbl, store) :=
        qedClusterAllocate { store with cache } (qedByte2Cluster store.cbCluster store.cbTable)
      let store :=
        { store with
          cache := store.cache.setEntry p ⟨(store.cache.entry p).cRefs, offL2Tbl, fun _ => 0⟩ }
      some (transfer (answer .l2Alloc) (writeL2Table offL2Tbl fun _ => 0)
        (updateL2Alloc answer user) (fun s => s.freeAlloc.freeEntry)
        (startRequest store ⟨.l2Alloc, offL2Tbl, idxL1, idxL2, offL2Tbl, p, store.cbCluster⟩))
  else
    match store.cache.fetch store.l2Disk (store.paL1Table idxL1) mem fRead with
    | (none, _) => none
    | (some p, cache) =>
      let (offData, store) := qedClusterAllocate { store with cache } 1
      some (transfer (answer .userAlloc) (writeUser offData store.cbCluster user)
        (updateUserAlloc answer) (fun s => s.freeAlloc)
        (startRequest store ⟨.userAlloc, offData, idxL1, idxL2, offData, p, store.cbCluster⟩))

end

/-- The transfers a write needs. -/
def allocSteps (store : Store) (idxL1 : Nat) : List AllocState :=
  if store.paL1Table idxL1 = 0 then [.l2Alloc, .l2Link, .userAlloc, .userLink]
  else [.userAlloc, .userLink]

/-! ### What a failed write should leave -/

/-- A cluster as it is read: `none` where the image has none. -/
def readCluster (store : Store) (idxL1 idxL2 : Nat) : Option Buf :=
  if store.paL1Table idxL1 = 0 then none
  else if store.l2Disk (store.paL1Table idxL1) idxL2 = 0 then none
  else some (store.dataDisk (store.l2Disk (store.paL1Table idxL1) idxL2))

/-- The ranges of the file in use: the header, the L1 table, the L2 tables it links and the clusters
they link. -/
inductive Linked (store : Store) : Nat → Nat → Prop where
  | header : Linked store 0 store.cbCluster
  | l1Table : Linked store store.offL1Table store.cbTable
  | l2Table (i : Nat) : i < store.cTableEntries → store.paL1Table i ≠ 0 →
      Linked store (store.paL1Table i) store.cbTable
  | cluster (i j : Nat) : i < store.cTableEntries → j < store.cTableEntries →
      store.paL1Table i ≠ 0 → store.l2Disk (store.paL1Table i) j ≠ 0 →
      Linked store (store.l2Disk (store.paL1Table i) j) store.cbCluster

/-- The end of the last range in use. -/
def EndOfLinked (store : Store) (off : Nat) : Prop :=
  (∀ start cb, Linked store start cb → start + cb ≤ off) ∧
    ∃ start cb, Linked store start cb ∧ start + cb = off

/-- A failed write is undone. -/
structure Undone (before : Store) (idxL1 : Nat) (s : Request) : Prop where
  reported : s.fReported = true
  l1Table : ∀ i, s.store.paL1Table i = before.paL1Table i ∨
    (i = idxL1 ∧ before.paL1Table i = 0 ∧ ∀ j, s.store.l2Disk (s.store.paL1Table i) j = 0)
  l2Tables : ∀ p ∈ s.store.cache.listSearch, p ∈ before.cache.listSearch →
    s.store.cache.off p = before.cache.off p →
      (s.store.cache.entry p).paL2Tbl = (before.cache.entry p).paL2Tbl
  content : ∀ i j, readCluster s.store i j = readCluster before i j
  cbImage : EndOfLinked s.store s.store.cbImage
  released : ∀ p ∈ s.store.cache.listSearch, (s.store.cache.entry p).cRefs =
    if p ∈ before.cache.listSearch then (before.cache.entry p).cRefs else 0
  notListed : s.fFreedListed = false
  freedOnce : s.cFreed = 1

end VBox.Storage.Qed
