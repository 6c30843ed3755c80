import VBox.Storage.Qed.ClusterAlloc

/-!
A failed allocation leaves a hole.

`cbImageOld` is what the size of the file is set back to; `cbImage`, from which the next cluster is
taken, stays where the allocation left it. `Hole` is what every failing path ends with.
-/

namespace VBox.Storage.Qed

open Function

/-- What the ranges in use depend on. -/
structure SameLayout (a b : Store) : Prop where
  cbCluster : a.cbCluster = b.cbCluster
  cTableEntries : a.cTableEntries = b.cTableEntries
  cbTable : a.cbTable = b.cbTable
  offL1Table : a.offL1Table = b.offL1Table
  cbImage : a.cbImage = b.cbImage
  paL1Table : a.paL1Table = b.paL1Table
  l2Disk : a.l2Disk = b.l2Disk

theorem SameLayout.refl (store : Store) : SameLayout store store := ⟨rfl, rfl, rfl, rfl, rfl, rfl, rfl⟩

variable {a b : Store}

theorem SameLayout.linked (same : SameLayout a b) {start cb : Nat} (linked : Linked a start cb) :
    Linked b start cb := by
  cases linked with
  | header => exact same.cbCluster ▸ .header
  | l1Table =>
    rw [same.offL1Table, same.cbTable]
    exact .l1Table
  | l2Table i inTable used =>
    rw [same.cTableEntries] at inTable
    rw [same.paL1Table] at used
    rw [same.paL1Table, same.cbTable]
    exact .l2Table i inTable used
  | cluster i j inL1 inL2 usedL1 usedL2 =>
    rw [same.cTableEntries] at inL1 inL2
    rw [same.paL1Table] at usedL1 usedL2
    rw [same.l2Disk] at usedL2
    rw [same.paL1Table, same.l2Disk, same.cbCluster]
    exact .cluster i j inL1 inL2 usedL1 usedL2

/-- The next cluster is taken behind the end of the ranges in use. -/
def Hole (store : Store) : Prop :=
  ∃ last < store.cbImage, ∀ start cb, Linked store start cb → start + cb ≤ last

theorem SameLayout.hole (same : SameLayout a b) (hole : Hole b) : Hole a := by
  obtain ⟨last, below, inside⟩ := hole
  exact ⟨last, same.cbImage ▸ below, fun start cb linked => inside start cb (same.linked linked)⟩

variable {store : Store}

theorem Hole.not_end (hole : Hole store) : ¬EndOfLinked store store.cbImage := by
  rintro ⟨-, start, cb, linked, atEnd⟩
  obtain ⟨last, below, inside⟩ := hole
  have short := inside start cb linked
  rw [atEnd] at short
  exact absurd below (Nat.not_lt.mpr short)

/-- The rollback does not touch what an allocation moves. -/
theorem rollback_sameLayout (s : Request) :
    SameLayout (qedAsyncClusterAllocRollback s).store s.store := by
  unfold qedAsyncClusterAllocRollback
  simp only
  split <;> exact ⟨rfl, rfl, rfl, rfl, rfl, rfl, rfl⟩

/-- A transfer that fails leaves a hole where there was one before it. -/
theorem transfer_failed {answer : TransferAnswer} (failed : answer.fOk = false) {s : Request}
    (effect : Store → Store) (go : Request → Request) {undo : Request → Request}
    (same : SameLayout (undo s).store s.store) (hole : Hole s.store) :
    Hole (transfer answer effect go undo s).store := by
  unfold transfer
  rw [failed]
  cases answer.fAsync with
  | false => exact same.hole hole
  | true => exact (rollback_sameLayout s).hole hole

/-- A transfer that succeeds goes on with its effect on the file. -/
theorem transfer_ok {answer : TransferAnswer} (ok : answer.fOk = true) {s : Request}
    (effect : Store → Store) {go : Request → Request} (undo : Request → Request)
    (next : ∀ fCallback, Hole (go { s with store := effect s.store, fCallback }).store) :
    Hole (transfer answer effect go undo s).store := by
  unfold transfer
  rw [ok]
  cases answer.fAsync with
  | false => exact next s.fCallback
  | true => exact next true

section

variable {answer : AllocState → TransferAnswer} {user : VBox.Lib.Buf}

variable {s : Request}

theorem updateUserAlloc_hole (failed : (answer .userLink).fOk = false) (hole : Hole s.store) :
    Hole (updateUserAlloc answer s).store := by
  unfold updateUserAlloc
  exact transfer_failed failed _ _
    (rollback_sameLayout { s with alloc := { s.alloc with enmAllocState := .userLink } }) hole

/-- Where the data write or its link fails there is a hole if there is one before the data write. -/
theorem userAlloc_hole {undo : Request → Request} (off cb : Nat)
    (failed : (answer .userAlloc).fOk = false ∨ (answer .userLink).fOk = false)
    (same : SameLayout (undo s).store s.store) (hole : Hole s.store) :
    Hole (transfer (answer .userAlloc) (writeUser off cb user) (updateUserAlloc answer) undo
      s).store := by
  cases ok : (answer .userAlloc).fOk with
  | false => exact transfer_failed ok _ _ same hole
  | true =>
    rw [ok] at failed
    refine transfer_ok ok _ _ fun fCallback => ?_
    apply updateUserAlloc_hole (failed.resolve_left Bool.true_eq_false.mp)
    have written : SameLayout (writeUser off cb user s.store) s.store :=
      ⟨rfl, rfl, rfl, rfl, rfl, rfl, rfl⟩
    exact written.hole hole

/-! ### A new L2 table -/

/-- The sizes of an image, and room for the numbers. -/
structure StoreSizes (store : Store) (off : Nat) : Prop where
  cluster : 0 < store.cbCluster ∧ store.cbCluster ≤ 2 ^ 26
  table : 0 < store.cbTable ∧ store.cbTable ≤ 2 ^ 30
  small : off < 2 ^ 63

/-- The table at `off` has been taken, but not linked. -/
structure NewTable (store : Store) (p idxL1 off : Nat) : Prop where
  sized : StoreSizes store off
  inside : ∀ start cb, Linked store start cb → start + cb ≤ off
  free : store.paL1Table idxL1 = 0
  entry : store.cache.off p = off
  cbImage : store.cbImage = off + store.cbTable

variable {p idxL1 off : Nat}

theorem NewTable.hole (new : NewTable store p idxL1 off) : Hole store := by
  refine ⟨off, ?_, new.inside⟩
  rw [new.cbImage]
  exact Nat.lt_add_of_pos_right new.sized.table.1

/-- The next cluster is where the image ends. -/
theorem qedClusterAllocate_one (cluster : store.cbCluster ≤ 2 ^ 26)
    (small : store.cbImage < 2 ^ 63 + 2 ^ 30) : qedClusterAllocate store 1 =
      (store.cbImage, { store with cbImage := store.cbImage + store.cbCluster }) := by
  unfold qedClusterAllocate
  rw [Nat.one_mul, u32_of_lt (Nat.lt_of_le_of_lt cluster (by decide))]
  have exact64 : u64 (store.cbImage + store.cbCluster) = store.cbImage + store.cbCluster :=
    Nat.mod_eq_of_lt (by omega)
  rw [exact64]

/-- Once the table is linked and the cluster taken, the table's end is the end of what is linked. -/
theorem linked_hole (new : NewTable store p idxL1 off) (empty : ∀ j, store.l2Disk off j = 0)
    {after : Store} (cbCluster : after.cbCluster = store.cbCluster)
    (cTableEntries : after.cTableEntries = store.cTableEntries)
    (cbTable : after.cbTable = store.cbTable) (offL1Table : after.offL1Table = store.offL1Table)
    (l2Disk : after.l2Disk = store.l2Disk)
    (paL1Table : after.paL1Table = update store.paL1Table idxL1 off)
    (cbImage : after.cbImage = store.cbImage + store.cbCluster) : Hole after := by
  refine ⟨off + store.cbTable, ?_, ?_⟩
  · rw [cbImage, new.cbImage]
    exact Nat.lt_add_of_pos_right new.sized.cluster.1
  · intro start cb linked
    have earlier : ∀ {start cb}, Linked store start cb → start + cb ≤ off + store.cbTable :=
      fun known => Nat.le_add_right_of_le (new.inside _ _ known)
    cases linked with
    | header => exact earlier (cbCluster ▸ .header)
    | l1Table =>
      rw [offL1Table, cbTable]
      exact earlier .l1Table
    | l2Table i inTable used =>
      rw [cTableEntries] at inTable
      rw [paL1Table] at used ⊢
      rw [cbTable]
      by_cases same : i = idxL1
      · rw [same, update_self]
      · rw [update_of_ne same] at used ⊢
        exact earlier (.l2Table i inTable used)
    | cluster i j inL1 inL2 usedL1 usedL2 =>
      rw [cTableEntries] at inL1 inL2
      rw [paL1Table] at usedL1 usedL2 ⊢
      rw [l2Disk] at usedL2 ⊢
      rw [cbCluster]
      by_cases same : i = idxL1
      · rw [same, update_self] at usedL2
        exact absurd (empty j) usedL2
      · rw [update_of_ne same] at usedL1 usedL2 ⊢
        exact earlier (.cluster i j inL1 inL2 usedL1 usedL2)

section

variable (new : NewTable s.store s.alloc.pL2Entry s.alloc.idxL1 off)
  (empty : ∀ j, s.store.l2Disk off j = 0)

include new empty

theorem updateL2Link_hole
    (failed : (answer .userAlloc).fOk = false ∨ (answer .userLink).fOk = false) :
    Hole (updateL2Link answer user s).store := by
  obtain ⟨⟨-, cluster⟩, ⟨-, table⟩, small⟩ := new.sized
  have taken := @qedClusterAllocate_one s.store cluster (by
    rw [new.cbImage]
    omega)
  have entry := new.entry
  unfold updateL2Link
  simp only
  apply userAlloc_hole _ _ failed
  · exact rollback_sameLayout _
  · apply linked_hole new empty <;> simp only [taken, entry]

theorem updateL2Alloc_hole
    (failed : (answer .l2Link).fOk = false ∨ (answer .userAlloc).fOk = false ∨
      (answer .userLink).fOk = false) : Hole (updateL2Alloc answer user s).store := by
  unfold updateL2Alloc
  cases ok : (answer .l2Link).fOk with
  | false => exact transfer_failed ok _ _ (rollback_sameLayout _) new.hole
  | true =>
    rw [ok] at failed
    refine transfer_ok ok _ _ fun fCallback => ?_
    refine @updateL2Link_hole _ _ _ off ?_ empty (failed.resolve_left Bool.true_eq_false.mp)
    have written : SameLayout (writeL1Link s.alloc.idxL1 (s.store.cache.off s.alloc.pL2Entry)
        s.store) s.store := ⟨rfl, rfl, rfl, rfl, rfl, rfl, rfl⟩
    exact ⟨⟨new.sized.cluster, new.sized.table, new.sized.small⟩, fun start cb linked =>
      new.inside start cb (written.linked linked), new.free, new.entry, new.cbImage⟩

end

end

/-! ### Writes -/

/-- An image whose clusters and tables have the sizes a header may give them, with all ranges in use in
front of its end. -/
structure ValidStore (store : Store) : Prop where
  cluster : 2 ^ 12 ≤ store.cbCluster ∧ store.cbCluster ≤ 2 ^ 26
  table : ∃ cClusters, 1 ≤ cClusters ∧ cClusters ≤ 16 ∧
    store.cbTable = cClusters * store.cbCluster
  ranges : ∀ start cb, Linked store start cb → start + cb ≤ store.cbImage
  small : store.cbImage < 2 ^ 63

theorem ValidStore.sized (valid : ValidStore store) : StoreSizes store store.cbImage := by
  obtain ⟨cClusters, some, few, table⟩ := valid.table
  obtain ⟨low, high⟩ := valid.cluster
  refine ⟨⟨Nat.lt_of_lt_of_le (by decide) low, high⟩, ⟨?_, ?_⟩, valid.small⟩
  · rw [table]
    exact Nat.mul_pos some (Nat.lt_of_lt_of_le (by decide) low)
  · rw [table]
    show _ ≤ 16 * 2 ^ 26
    exact Nat.mul_le_mul few high

/-- Taking the clusters of a table moves the end of the image by the table's size. -/
theorem ValidStore.takeTable (valid : ValidStore store) (cache : L2Cache) :
    qedClusterAllocate { store with cache } (qedByte2Cluster store.cbCluster store.cbTable) =
      (store.cbImage, { store with cache, cbImage := store.cbImage + store.cbTable }) := by
  obtain ⟨cClusters, -, -, table⟩ := valid.table
  obtain ⟨⟨positive, -⟩, ⟨-, room⟩, small⟩ := valid.sized
  have clusters : qedByte2Cluster store.cbCluster store.cbTable = cClusters := by
    unfold qedByte2Cluster
    rw [table, Nat.mul_div_cancel _ positive, Nat.mul_mod_left, if_neg (not_not.mpr rfl)]
    rfl
  unfold qedClusterAllocate
  rw [clusters, ← table, u32_of_lt (Nat.lt_of_le_of_lt room (by decide))]
  have exact64 : u64 (store.cbImage + store.cbTable) = store.cbImage + store.cbTable :=
    Nat.mod_eq_of_lt (by omega)
  rw [exact64]

/-- Neither a larger `cbImage` nor what is written behind the old one is in use. -/
theorem ValidStore.inside {after : Store} (valid : ValidStore store) {start cb : Nat}
    (linked : Linked after start cb) (cbCluster : after.cbCluster = store.cbCluster)
    (cTableEntries : after.cTableEntries = store.cTableEntries)
    (cbTable : after.cbTable = store.cbTable) (offL1Table : after.offL1Table = store.offL1Table)
    (paL1Table : after.paL1Table = store.paL1Table)
    (l2Disk : ∀ off < store.cbImage, after.l2Disk off = store.l2Disk off) :
    start + cb ≤ store.cbImage := by
  have inFront : ∀ i < store.cTableEntries, store.paL1Table i ≠ 0 →
      store.paL1Table i < store.cbImage := fun i inTable used =>
    Nat.lt_of_lt_of_le (Nat.lt_add_of_pos_right valid.sized.table.1)
      (valid.ranges _ _ (.l2Table i inTable used))
  cases linked with
  | header => exact valid.ranges _ _ (cbCluster ▸ .header)
  | l1Table =>
    rw [offL1Table, cbTable]
    exact valid.ranges _ _ .l1Table
  | l2Table i inTable used =>
    rw [cTableEntries] at inTable
    rw [paL1Table] at used ⊢
    rw [cbTable]
    exact valid.ranges _ _ (.l2Table i inTable used)
  | cluster i j inL1 inL2 usedL1 usedL2 =>
    rw [cTableEntries] at inL1 inL2
    rw [paL1Table] at usedL1 usedL2 ⊢
    rw [l2Disk _ (inFront i inL1 usedL1)] at usedL2 ⊢
    rw [cbCluster]
    exact valid.ranges _ _ (.cluster i j inL1 inL2 usedL1 usedL2)

/-- A write that links a new table and fails on the way. -/
theorem newTable_hole (valid : ValidStore store) {idxL1 : Nat}
    (free : store.paL1Table idxL1 = 0) (cache : L2Cache) (p : Nat) (entry : L2Entry)
    (offset : entry.offL2Tbl = store.cbImage) (alloc : ClusterAlloc) (allocL1 : alloc.idxL1 = idxL1)
    (allocEntry : alloc.pL2Entry = p) (answer : AllocState → TransferAnswer) (user : VBox.Lib.Buf)
    (failed : ∃ step ∈ [AllocState.l2Alloc, .l2Link, .userAlloc, .userLink],
      (answer step).fOk = false) :
    Hole (transfer (answer .l2Alloc) (writeL2Table store.cbImage fun _ => 0)
      (updateL2Alloc answer user) (fun s => s.freeAlloc.freeEntry)
      (startRequest
        { store with
          cbImage := store.cbImage + store.cbTable
          cache := cache.setEntry p entry }
        alloc)).store := by
  have sized := valid.sized
  have entryOff : (cache.setEntry p entry).off alloc.pL2Entry = store.cbImage := by
    rw [allocEntry, ← offset]
    exact congrArg L2Entry.offL2Tbl (update_self ..)
  cases ok : (answer .l2Alloc).fOk with
  | false =>
    apply transfer_failed ok _ _ ⟨rfl, rfl, rfl, rfl, rfl, rfl, rfl⟩
    exact ⟨store.cbImage, Nat.lt_add_of_pos_right sized.table.1, fun start cb linked =>
      valid.inside linked rfl rfl rfl rfl rfl fun _ _ => rfl⟩
  | true =>
    refine transfer_ok ok _ _ fun fCallback => ?_
    refine @updateL2Alloc_hole _ _ _ store.cbImage
      ⟨⟨sized.cluster, sized.table, sized.small⟩, ?_, ?_, entryOff, rfl⟩ ?_ ?_
    · intro start cb linked
      apply valid.inside linked rfl rfl rfl rfl rfl
      intro off below
      exact update_of_ne (Nat.ne_of_lt below) _ _
    · show store.paL1Table alloc.idxL1 = 0
      rw [allocL1]
      exact free
    · intro j
      show update store.l2Disk store.cbImage (fun _ => 0) store.cbImage j = 0
      rw [update_self]
    · obtain ⟨step, member, wrong⟩ := failed
      simp only [List.mem_cons, List.not_mem_nil, or_false] at member
      rcases member with rfl | rfl | rfl | rfl
      · rw [ok] at wrong
        cases wrong
      · exact .inl wrong
      · exact .inr (.inl wrong)
      · exact .inr (.inr wrong)

/-- Whichever of the transfers fails, and however it fails, the clusters stay taken. -/
theorem failed_write_hole (valid : ValidStore store) {idxL1 idxL2 : Nat} {fAlloc fRead : Bool}
    {mem : Option Nat} {answer : AllocState → TransferAnswer} {user : VBox.Lib.Buf}
    (failed : ∃ step ∈ allocSteps store idxL1, (answer step).fOk = false) {s : Request}
    (write : qedWriteAlloc answer user store idxL1 idxL2 fAlloc mem fRead = some s) :
    Hole s.store := by
  unfold qedWriteAlloc at write
  unfold allocSteps at failed
  split at write
  case isTrue => cases write
  case isFalse =>
    split at write
    case isTrue free =>
      rw [if_pos free] at failed
      split at write
      case h_1 => cases write
      case h_2 p cache _ =>
        rw [valid.takeTable] at write
        rw [← Option.some.inj write]
        exact newTable_hole valid free cache p _ rfl _ rfl rfl answer user failed
    case isFalse used =>
      rw [if_neg used] at failed
      split at write
      case h_1 => cases write
      case h_2 p cache _ =>
        obtain ⟨⟨positive, cluster⟩, -, small⟩ := valid.sized
        have taken := @qedClusterAllocate_one { store with cache } cluster
          (Nat.lt_add_right _ small)
        rw [taken] at write
        rw [← Option.some.inj write]
        apply userAlloc_hole
        · obtain ⟨step, member, wrong⟩ := failed
          simp only [List.mem_cons, List.not_mem_nil, or_false] at member
          rcases member with rfl | rfl
          · exact .inl wrong
          · exact .inr wrong
        · exact SameLayout.refl _
        · refine ⟨store.cbImage, Nat.lt_add_of_pos_right positive, fun start cb linked => ?_⟩
          exact valid.inside linked rfl rfl rfl rfl rfl fun _ _ => rfl

/-- No failed write is undone. -/
theorem failed_write_not_undone {store : Store} (valid : ValidStore store) {idxL1 idxL2 : Nat}
    {fAlloc fRead : Bool} {mem : Option Nat} {answer : AllocState → TransferAnswer}
    {user : VBox.Lib.Buf}
    (failed : ∃ step ∈ allocSteps store idxL1, (answer step).fOk = false) {s : Request}
    (write : qedWriteAlloc answer user store idxL1 idxL2 fAlloc mem fRead = some s) :
    ¬Undone store idxL1 s := fun undone =>
  (failed_write_hole valid failed write).not_end undone.cbImage

/-- An image of 4 KB clusters with nothing but its header and its L1 table. -/
def emptyStore : Store :=
  { cbCluster := 4096
    cTableEntries := 512
    cbTable := 4096
    offL1Table := 4096
    cbImage := 8192
    paL1Table := fun _ => 0
    cache := ⟨0x100, 4096, 0, [], [], fun _ => ⟨0, 0, fun _ => 0⟩⟩
    l1Disk := fun _ => 0
    l2Disk := fun _ _ => 0
    dataDisk := fun _ _ => 0
    cbFile := 8192 }

theorem emptyStore_valid : ValidStore emptyStore where
  cluster := by decide
  table := ⟨1, by decide⟩
  ranges start cb linked := by
    cases linked with
    | header => decide
    | l1Table => decide
    | l2Table i inTable used => exact absurd rfl used
    | cluster i j inL1 inL2 usedL1 usedL2 => exact absurd rfl usedL1
  small := by decide

/-- The data write fails in its callback, behind a new L2 table. -/
def dataFails : AllocState → TransferAnswer
  | .userAlloc => ⟨true, false⟩
  | _ => ⟨false, true⟩

theorem failed_write_not_undone_data : ∃ s,
    qedWriteAlloc dataFails (fun _ => 1) emptyStore 0 0 true (some 0x5000) true = some s ∧
      ¬Undone emptyStore 0 s := by
  obtain ⟨s, write⟩ : ∃ s,
      qedWriteAlloc dataFails (fun _ => 1) emptyStore 0 0 true (some 0x5000) true = some s :=
    ⟨_, rfl⟩
  exact ⟨s, write, failed_write_not_undone emptyStore_valid ⟨.userAlloc, by decide, rfl⟩ write⟩

theorem failed_write_undone_false : ¬ ∀ store idxL1 idxL2 fAlloc mem fRead answer user s,
    ValidStore store → (∃ step ∈ allocSteps store idxL1, (answer step).fOk = false) →
      qedWriteAlloc answer user store idxL1 idxL2 fAlloc mem fRead = some s →
        Undone store idxL1 s := by
  intro undone
  obtain ⟨s, write⟩ : ∃ s,
      qedWriteAlloc dataFails (fun _ => 1) emptyStore 0 0 true (some 0x5000) true = some s :=
    ⟨_, rfl⟩
  have failed : ∃ step ∈ allocSteps emptyStore 0, (dataFails step).fOk = false :=
    ⟨.userAlloc, by decide, rfl⟩
  exact (failed_write_hole emptyStore_valid failed write).not_end
    (undone _ _ _ _ _ _ _ _ _ emptyStore_valid failed write).cbImage

end VBox.Storage.Qed
