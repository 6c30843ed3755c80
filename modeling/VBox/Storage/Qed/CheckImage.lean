import VBox.Storage.Qed.Image

/-!
The consistency check of a QED image.

`qedCheckImage` walks the L1 table and the L2 tables it refers to and marks their clusters in a
bitmap. The allocations and the reads succeed; the model keeps the subtractions from the file size
and the bits of the bitmap that are accessed. A bit beyond the bitmap is kept like any other, so what the
code reads there is left open by the events, not by the result.
-/

namespace VBox.Storage.Qed

/-- A file: its size and the entries of the table at an offset, in host order. -/
structure CheckFile where
  cbFile : UInt64
  table : Nat → Nat → UInt64

/-- A step of the check that can go wrong. -/
inductive CheckEvent where
  /-- `cbFile - cb`. -/
  | sub (cb : Nat)
  /-- A bit of the cluster bitmap. -/
  | bit (n : Nat)
  deriving DecidableEq, Repr

/-- The state of the check; `rc` is `none` for `VINF_SUCCESS`. -/
structure Check where
  clusterBitmap : Nat → Bool
  rc : Option Error
  events : List CheckEvent

section

variable (header : QedHeader) (file : CheckFile)

def cbCluster : Nat := header.u32ClusterSize.toNat
def cbTable : Nat := u32 (header.u32TableSize.toNat * header.u32ClusterSize.toNat)

/-- `qedIsClusterOffsetValid`. -/
def qedIsClusterOffsetValid (offCluster : Nat) : Bool :=
  offCluster ≤ u64Sub file.cbFile.toNat (cbCluster header) &&
    offCluster &&& (cbCluster header - 1) == 0

/-- `qedIsTblOffsetValid`. -/
def qedIsTblOffsetValid (offTbl : Nat) : Bool :=
  offTbl ≤ u64Sub file.cbFile.toNat (cbTable header) && offTbl &&& (cbCluster header - 1) == 0

/-- The clusters of the bitmap an offset and a number of clusters stand for, in 32 bits. -/
def offClusterStart (off : Nat) : Nat := u32 (qedByte2Cluster (cbCluster header) off)
def offClusterEnd (off cClusters : Nat) : Nat := u32 (offClusterStart header off + cClusters)

/-- The entries of the table at an offset. -/
def entries (off : Nat) : List Nat :=
  (List.range (cbTable header / 8)).map fun i => (file.table off i).toNat

end

/-- `qedClusterBitmapCheckAndSet` tests up to the first used cluster: the result, the bitmap and the
bits accessed. -/
def qedClusterBitmapCheckAndSet (bitmap : Nat → Bool) (first last : Nat) :
    Bool × (Nat → Bool) × List CheckEvent :=
  match (List.range' first (last - first)).find? bitmap with
  | some used => (false, bitmap, (List.range' first (used + 1 - first)).map .bit)
  | none =>
    (true, fun n => bitmap n || (decide (first ≤ n) && decide (n < last)),
      (List.range' first (last - first)).map .bit)

/-- Note what a step did. -/
def Check.note (check : Check) (events : List CheckEvent) : Check :=
  { check with events := check.events ++ events }

def Check.fail (check : Check) : Check := { check with rc := some .genInvalidHeader }

/-- The loop over the entries of an L2 table. It skips the entries that refer to a cluster. -/
def checkL2 (header : QedHeader) (file : CheckFile) : List Nat → Check → Check
  | [], check => check
  | off :: rest, check =>
    if off ≠ 0 then checkL2 header file rest check
    else
      let check := check.note [.sub (cbCluster header)]
      if !qedIsClusterOffsetValid header file off then check.fail
      else
        let (fSet, bitmap, events) := qedClusterBitmapCheckAndSet check.clusterBitmap
          (offClusterStart header off) (offClusterEnd header off 1)
        let check := check.note events
        if !fSet then check.fail
        else checkL2 header file rest { check with clusterBitmap := bitmap }

/-- The loop over the entries of the L1 table. Reading an L2 table sets `rc`. -/
def checkL1 (header : QedHeader) (file : CheckFile) : List Nat → Check → Check
  | [], check => check
  | off :: rest, check =>
    if off = 0 then checkL1 header file rest check
    else
      let check := check.note [.sub (cbTable header)]
      if !qedIsTblOffsetValid header file off then check.fail
      else
        let (fSet, bitmap, events) := qedClusterBitmapCheckAndSet check.clusterBitmap
          (offClusterStart header off) (offClusterEnd header off header.u32TableSize.toNat)
        let check := check.note events
        if !fSet then check.fail
        else
          checkL1 header file rest
            (checkL2 header file (entries header file off)
              { check with clusterBitmap := bitmap, rc := none })

/-- The bitmap with the header and the L1 table marked. That the L1 table's clusters were clear is only
asserted. -/
def markL1 (header : QedHeader) (check : Check) : Check :=
  let check := { check with clusterBitmap := fun n => n == 0 }.note [.bit 0]
  let offL1 := header.u64OffL1Table.toNat
  let (_, bitmap, events) := qedClusterBitmapCheckAndSet check.clusterBitmap
    (offClusterStart header offL1) (offClusterEnd header offL1 header.u32TableSize.toNat)
  { check with clusterBitmap := bitmap }.note events

/-- `qedCheckImage`. -/
def qedCheckImage (header : QedHeader) (file : CheckFile) : Check :=
  let check : Check := ⟨fun _ => false, none, [.sub (cbTable header)]⟩
  if !qedIsTblOffsetValid header file header.u64OffL1Table.toNat then check.fail
  else
    checkL1 header file (entries header file header.u64OffL1Table.toNat) (markL1 header check)

/-! ### Consistency -/

/-- A range of the file: an offset and a length. -/
abbrev Region := Nat × Nat

/-- The regions an image consists of: the header cluster, the L1 table, the L2 tables and the
clusters their entries refer to. -/
def regions (header : QedHeader) (file : CheckFile) : List Region :=
  let l1 := (entries header file header.u64OffL1Table.toNat).filter (· ≠ 0)
  (0, cbCluster header) :: (header.u64OffL1Table.toNat, cbTable header) ::
    (l1.map fun off => (off, cbTable header)) ++
      l1.flatMap fun off => ((entries header file off).filter (· ≠ 0)).map fun offData =>
        (offData, cbCluster header)

/-- Two regions share no byte. -/
def Region.Apart (a b : Region) : Prop := a.1 + a.2 ≤ b.1 ∨ b.1 + b.2 ≤ a.1

/-- The image is consistent: its tables and clusters start cluster aligned, lie in the file and, with
the header cluster, are pairwise disjoint. -/
structure Consistent (header : QedHeader) (file : CheckFile) : Prop where
  aligned : ∀ region ∈ (regions header file).tail, region.1 % cbCluster header = 0
  inside : ∀ region ∈ (regions header file).tail, region.1 + region.2 ≤ file.cbFile.toNat
  disjoint : (regions header file).Pairwise Region.Apart

end VBox.Storage.Qed
