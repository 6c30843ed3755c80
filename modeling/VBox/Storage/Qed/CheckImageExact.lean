import VBox.Storage.Qed.CheckImage
import Mathlib.Tactic.ByContra

/-!
What `qedCheckImage` accepts, exactly.

The inner loop skips the entries that refer to a cluster and checks the others. A zero entry is
cluster 0, which the header uses, so a table is reported as soon as it has one; and the next table read
resets the status. What is left is a check of the tables (`TablesPass`) and of one bit of the last of
them (`lastFull`).
-/

namespace VBox.Storage.Qed

open List

/-! ### Marking clusters -/

variable {bitmap : Nat → Bool} {first last : Nat}

/-- A range of the bitmap that is clear is set. -/
theorem checkAndSet_clear (clear : ∀ n, first ≤ n → n < last → bitmap n = false) :
    qedClusterBitmapCheckAndSet bitmap first last =
      (true, fun n => bitmap n || (decide (first ≤ n) && decide (n < last)),
        (range' first (last - first)).map .bit) := by
  unfold qedClusterBitmapCheckAndSet
  have none : (range' first (last - first)).find? bitmap = none := by
    rw [find?_eq_none]
    intro n member
    rw [mem_range'_1] at member
    rw [clear n member.1 (by omega)]
    exact Bool.false_ne_true
  rw [none]

/-- A range with a used cluster is left as it is, and nothing behind that cluster is looked at. -/
theorem checkAndSet_used (used : ∃ n, first ≤ n ∧ n < last ∧ bitmap n = true) :
    ∃ n, bitmap n = true ∧ qedClusterBitmapCheckAndSet bitmap first last =
      (false, bitmap, (range' first (n + 1 - first)).map .bit) := by
  unfold qedClusterBitmapCheckAndSet
  cases found : (range' first (last - first)).find? bitmap with
  | some n => exact ⟨n, find?_some found, rfl⟩
  | none =>
    rw [find?_eq_none] at found
    obtain ⟨n, low, high, set⟩ := used
    exact absurd set (found n (mem_range'_1.mpr ⟨low, by omega⟩))

section

variable (header : QedHeader) (file : CheckFile)

/-- A bit lies in the bitmap, which has a byte for eight clusters of the file; a bit number is a signed
32-bit value. -/
def InBitmap (n : Nat) : Prop :=
  n < 8 * (file.cbFile.toNat / cbCluster header / 8) ∧ n < 2 ^ 31

/-- A step is harmless. -/
def CheckEvent.Safe : CheckEvent → Prop
  | .sub cb => cb ≤ file.cbFile.toNat
  | .bit n => InBitmap header file n

variable {header file}

theorem bits_safe_iff (first last : Nat) :
    (∀ event ∈ (range' first (last - first)).map CheckEvent.bit, event.Safe header file) ↔
      ∀ n, first ≤ n → n < last → InBitmap header file n := by
  constructor
  · intro safe n low high
    exact safe _ (mem_map_of_mem (mem_range'_1.mpr ⟨low, by omega⟩))
  · intro inside event member
    obtain ⟨n, range, rfl⟩ := mem_map.mp member
    rw [mem_range'_1] at range
    exact inside n range.1 (by omega)

/-! ### The L2 tables -/

@[simp] theorem Check.note_bitmap (check : Check) (events : List CheckEvent) :
    (check.note events).clusterBitmap = check.clusterBitmap := rfl

theorem note_note (check : Check) (first second : List CheckEvent) :
    (check.note first).note second = check.note (first ++ second) := by
  simp only [Check.note, append_assoc]

/-- A zero entry is valid as an offset and refers to the header's cluster. -/
theorem zero_entry (header : QedHeader) (file : CheckFile) :
    qedIsClusterOffsetValid header file 0 = true ∧ offClusterStart header 0 = 0 ∧
      offClusterEnd header 0 1 = 1 := by
  have start : offClusterStart header 0 = 0 := by
    unfold offClusterStart qedByte2Cluster
    rw [Nat.zero_div, Nat.zero_mod, if_neg (by exact fun wrong => wrong rfl)]
    rfl
  refine ⟨?_, start, ?_⟩
  · unfold qedIsClusterOffsetValid
    rw [Nat.zero_and, decide_eq_true (Nat.zero_le _)]
    rfl
  · rw [offClusterEnd, start]
    rfl

/-- The check of an L2 table looks for a zero entry and reports it. -/
theorem checkL2_eq (list : List Nat) (check : Check) (marked : check.clusterBitmap 0 = true) :
    checkL2 header file list check =
      if 0 ∈ list then (check.note [.sub (cbCluster header), .bit 0]).fail else check := by
  induction list with
  | nil => rfl
  | cons off rest ih =>
    rw [checkL2]
    by_cases zero : off = 0
    · subst zero
      obtain ⟨valid, first, last⟩ := zero_entry header file
      rw [if_pos mem_cons_self]
      simp only [ne_eq, not_true_eq_false, if_false, valid, Bool.not_true, Bool.false_eq_true,
        first, last, Check.note_bitmap]
      have used : qedClusterBitmapCheckAndSet check.clusterBitmap 0 1 =
          (false, check.clusterBitmap, [.bit 0]) := by
        have found : (range' 0 (1 - 0)).find? check.clusterBitmap = some 0 :=
          find?_cons_of_pos marked
        rw [qedClusterBitmapCheckAndSet, found]
        rfl
      rw [used, note_note]
      rfl
    · rw [if_pos zero, ih]
      simp only [mem_cons, Ne.symm zero, false_or]

/-! ### The tables -/

/-- The clusters of a table. -/
def InTable (header : QedHeader) (off n : Nat) : Prop :=
  offClusterStart header off ≤ n ∧ n < offClusterEnd header off header.u32TableSize.toNat

/-- Every table is at a valid offset and its clusters are used neither by what is marked already nor
by another table. -/
def TablesPass (header : QedHeader) (file : CheckFile) (used : Nat → Prop) (tables : List Nat) :
    Prop :=
  (∀ off ∈ tables, qedIsTblOffsetValid header file off = true ∧
      ∀ n, InTable header off n → ¬used n) ∧
    tables.Pairwise fun a b => ∀ n, InTable header a n → ¬InTable header b n

/-- The tables that are marked, up to the first one that does not pass, lie in the bitmap. -/
def TablesInBitmap (header : QedHeader) (file : CheckFile) (used : Nat → Prop)
    (tables : List Nat) : Prop :=
  ∀ before off after, tables = before ++ off :: after →
    TablesPass header file used (before ++ [off]) → ∀ n, InTable header off n →
      InBitmap header file n

/-- The last table has no zero entry, or there is no table. -/
def lastFull (header : QedHeader) (file : CheckFile) (tables : List Nat) : Prop :=
  ∀ off, tables.getLast? = some off → 0 ∉ entries header file off

theorem tablesPass_nil (used : Nat → Prop) : TablesPass header file used [] :=
  ⟨fun _ member => absurd member not_mem_nil, List.Pairwise.nil⟩

variable {rest : List Nat}

/-- The first table is marked before the others are looked at. -/
theorem tablesPass_cons {used : Nat → Prop} {off : Nat} :
    TablesPass header file used (off :: rest) ↔
      (qedIsTblOffsetValid header file off = true ∧ ∀ n, InTable header off n → ¬used n) ∧
        TablesPass header file (fun n => used n ∨ InTable header off n) rest := by
  unfold TablesPass
  rw [forall_mem_cons, pairwise_cons]
  constructor
  · rintro ⟨⟨first, later⟩, apart, pairwise⟩
    refine ⟨first, fun other member => ⟨(later other member).1, ?_⟩, pairwise⟩
    rintro n inOther (inUsed | inFirst)
    · exact (later other member).2 n inOther inUsed
    · exact apart other member n inFirst inOther
  · rintro ⟨first, later, pairwise⟩
    refine ⟨⟨first, fun other member => ⟨(later other member).1, fun n inOther inUsed =>
      (later other member).2 n inOther (.inl inUsed)⟩⟩, fun other member n inFirst inOther =>
        (later other member).2 n inOther (.inr inFirst), pairwise⟩

theorem tablesInBitmap_cons {used : Nat → Prop} {off : Nat} :
    TablesInBitmap header file used (off :: rest) ↔
      ((qedIsTblOffsetValid header file off = true ∧ ∀ n, InTable header off n → ¬used n) →
        (∀ n, InTable header off n → InBitmap header file n) ∧
          TablesInBitmap header file (fun n => used n ∨ InTable header off n) rest) := by
  constructor
  · intro inside passes
    constructor
    · exact inside [] off rest rfl (tablesPass_cons.mpr ⟨passes, tablesPass_nil _⟩)
    · intro before other after split pass
      exact inside (off :: before) other after (congrArg (off :: ·) split)
        (tablesPass_cons.mpr ⟨passes, pass⟩)
  · intro inside before other after split pass
    cases before with
    | nil =>
      obtain ⟨rfl, rfl⟩ := cons.inj split
      exact (inside (tablesPass_cons.mp pass).1).1
    | cons first more =>
      obtain ⟨rfl, rfl⟩ := cons.inj split
      obtain ⟨passes, later⟩ := tablesPass_cons.mp pass
      exact (inside passes).2 more other after rfl later

theorem lastFull_cons {off next : Nat} :
    lastFull header file (off :: next :: rest) ↔ lastFull header file (next :: rest) := by
  unfold lastFull
  rw [getLast?_cons_cons]

/-- The bitmap holds what is used, and if all steps so far were harmless it does so in its bytes. -/
structure Marked (header : QedHeader) (file : CheckFile) (used : Nat → Prop) (check : Check) :
    Prop where
  bitmap : ∀ n, check.clusterBitmap n = true ↔ used n
  inside : (∀ event ∈ check.events, event.Safe header file) →
    ∀ n, used n → InBitmap header file n

/-- The check behind a table that passes. -/
def afterTable (header : QedHeader) (file : CheckFile) (off : Nat) (check : Check) : Check :=
  let first := offClusterStart header off
  let last := offClusterEnd header off header.u32TableSize.toNat
  checkL2 header file (entries header file off)
    { (check.note [.sub (cbTable header)]).note ((List.range' first (last - first)).map .bit) with
      clusterBitmap := fun n => check.clusterBitmap n || (decide (first ≤ n) && decide (n < last))
      rc := none }

section

variable {used : Nat → Prop} {off : Nat} {check : Check}

theorem afterTable_eq (first : used 0) (marked : Marked header file used check) :
    afterTable header file off check =
      let first := offClusterStart header off
      let last := offClusterEnd header off header.u32TableSize.toNat
      let next : Check :=
        { (check.note [.sub (cbTable header)]).note
            ((range' first (last - first)).map .bit) with
          clusterBitmap := fun n =>
            check.clusterBitmap n || (decide (first ≤ n) && decide (n < last))
          rc := none }
      if 0 ∈ entries header file off then (next.note [.sub (cbCluster header), .bit 0]).fail
      else next := by
  unfold afterTable
  apply checkL2_eq
  show (check.clusterBitmap 0 || _) = true
  rw [(marked.bitmap 0).mpr first, Bool.true_or]

theorem afterTable_rc (first : used 0) (marked : Marked header file used check) :
    (afterTable header file off check).rc = none ↔ 0 ∉ entries header file off := by
  rw [afterTable_eq first marked]
  simp only
  split
  case isTrue zero => exact ⟨(nomatch ·), fun full => absurd zero full⟩
  case isFalse full => exact ⟨fun _ => full, fun _ => rfl⟩

theorem afterTable_bitmap (first : used 0) (marked : Marked header file used check) (n : Nat) :
    (afterTable header file off check).clusterBitmap n = true ↔ used n ∨ InTable header off n := by
  have set : (check.clusterBitmap n || (decide (offClusterStart header off ≤ n) &&
      decide (n < offClusterEnd header off header.u32TableSize.toNat))) = true ↔
      used n ∨ InTable header off n := by
    rw [Bool.or_eq_true, marked.bitmap, Bool.and_eq_true, decide_eq_true_iff, decide_eq_true_iff]
    rfl
  rw [afterTable_eq first marked]
  simp only
  split <;> exact set

/-- The steps of a table that passes are harmless if its clusters lie in the bitmap. -/
theorem afterTable_events (fits : cbTable header ≤ file.cbFile.toNat)
    (cluster : cbCluster header ≤ cbTable header) (first : used 0)
    (marked : Marked header file used check) :
    (∀ event ∈ (afterTable header file off check).events, event.Safe header file) ↔
      (∀ event ∈ check.events, event.Safe header file) ∧
        ∀ n, InTable header off n → InBitmap header file n := by
  have bits := @bits_safe_iff header file (offClusterStart header off)
    (offClusterEnd header off header.u32TableSize.toNat)
  have inTable : (∀ n, InTable header off n → InBitmap header file n) ↔
      ∀ n, offClusterStart header off ≤ n →
        n < offClusterEnd header off header.u32TableSize.toNat → InBitmap header file n :=
    ⟨fun all n low high => all n ⟨low, high⟩, fun all n both => all n both.1 both.2⟩
  have base : (∀ event ∈ check.events ++ [CheckEvent.sub (cbTable header)] ++
      (range' (offClusterStart header off)
        (offClusterEnd header off header.u32TableSize.toNat - offClusterStart header off)).map
          CheckEvent.bit, event.Safe header file) ↔
      (∀ event ∈ check.events, event.Safe header file) ∧
        ∀ n, InTable header off n → InBitmap header file n := by
    rw [forall_mem_append, forall_mem_append, bits, ← inTable]
    constructor
    · rintro ⟨⟨earlier, -⟩, inside⟩
      exact ⟨earlier, inside⟩
    · rintro ⟨earlier, inside⟩
      exact ⟨⟨earlier, forall_mem_singleton.mpr fits⟩, inside⟩
  rw [afterTable_eq first marked]
  simp only
  split
  · show (∀ event ∈ _ ++ [CheckEvent.sub (cbCluster header), .bit 0], _) ↔ _
    rw [forall_mem_append]
    constructor
    · rintro ⟨earlier, -⟩
      exact base.mp earlier
    · intro both
      refine ⟨base.mpr both, ?_⟩
      rw [forall_mem_cons, forall_mem_singleton]
      exact ⟨Nat.le_trans cluster fits, marked.inside both.1 0 first⟩
  · exact base

theorem afterTable_marked (fits : cbTable header ≤ file.cbFile.toNat)
    (cluster : cbCluster header ≤ cbTable header) (first : used 0)
    (marked : Marked header file used check) :
    Marked header file (fun n => used n ∨ InTable header off n)
      (afterTable header file off check) := by
  refine ⟨afterTable_bitmap first marked, fun safe n member => ?_⟩
  obtain ⟨earlier, table⟩ := (afterTable_events fits cluster first marked).mp safe
  exact member.elim (marked.inside earlier n) (table n)

/-- A table whose offset is invalid, and one with a used cluster, ends the loop. -/
theorem checkL1_cons (rest : List Nat) (nonzero : off ≠ 0)
    (marked : Marked header file used check) :
    ((qedIsTblOffsetValid header file off = true ∧ ∀ n, InTable header off n → ¬used n) ∧
        checkL1 header file (off :: rest) check =
          checkL1 header file rest (afterTable header file off check)) ∨
      (¬(qedIsTblOffsetValid header file off = true ∧ ∀ n, InTable header off n → ¬used n) ∧
        ∃ events, checkL1 header file (off :: rest) check =
            ((check.note [.sub (cbTable header)]).note events).fail ∧
          ((∀ event ∈ check.events, event.Safe header file) →
            ∀ event ∈ events, event.Safe header file)) := by
  have same : (check.note [.sub (cbTable header)]).clusterBitmap = check.clusterBitmap := rfl
  rw [checkL1, if_neg nonzero]
  simp only
  cases valid : qedIsTblOffsetValid header file off with
  | false =>
    right
    exact ⟨fun both => Bool.false_ne_true both.1, [],
      congrArg Check.fail (note_note check [.sub (cbTable header)] []).symm,
      fun _ _ member => absurd member not_mem_nil⟩
  | true =>
    by_cases clear : ∀ n, InTable header off n → ¬used n
    · left
      refine ⟨⟨rfl, clear⟩, ?_⟩
      have unset : ∀ n, offClusterStart header off ≤ n →
          n < offClusterEnd header off header.u32TableSize.toNat →
          check.clusterBitmap n = false := by
        intro n low high
        rw [← Bool.not_eq_true, marked.bitmap]
        exact clear n ⟨low, high⟩
      rw [← same] at unset
      rw [checkAndSet_clear unset]
      rfl
    · right
      refine ⟨fun both => clear both.2, ?_⟩
      push Not at clear
      obtain ⟨n, inTable, isUsed⟩ := clear
      obtain ⟨hit, set, result⟩ := checkAndSet_used
        ⟨n, inTable.1, inTable.2, (marked.bitmap n).mpr isUsed⟩
      rw [← same] at result
      rw [result]
      refine ⟨_, rfl, fun safe => ?_⟩
      -- Everything that was looked at is at most the cluster that is used.
      have inside := marked.inside safe hit ((marked.bitmap hit).mp set)
      rw [bits_safe_iff]
      intro m _ below
      have order : m ≤ hit := Nat.le_of_lt_succ below
      exact ⟨Nat.lt_of_le_of_lt order inside.1, Nat.lt_of_le_of_lt order inside.2⟩

end

/-- What the loop over the L1 table finds, and when it stays in the bitmap. -/
theorem checkL1_spec (fits : cbTable header ≤ file.cbFile.toNat)
    (cluster : cbCluster header ≤ cbTable header) (list : List Nat) {used : Nat → Prop}
    {check : Check} (first : used 0) (marked : Marked header file used check) :
    ((checkL1 header file list check).rc = none ↔
        TablesPass header file used (list.filter (· ≠ 0)) ∧
          if list.filter (· ≠ 0) = [] then check.rc = none
          else lastFull header file (list.filter (· ≠ 0))) ∧
      ((∀ event ∈ (checkL1 header file list check).events, event.Safe header file) ↔
        (∀ event ∈ check.events, event.Safe header file) ∧
          TablesInBitmap header file used (list.filter (· ≠ 0))) := by
  induction list generalizing used check with
  | nil =>
    constructor
    · exact ⟨fun none => ⟨tablesPass_nil used, none⟩, And.right⟩
    · refine ⟨fun safe => ⟨safe, ?_⟩, And.left⟩
      intro before off after split
      exact absurd split.symm (append_ne_nil_of_right_ne_nil _ (cons_ne_nil _ _))
  | cons off rest ih =>
    by_cases zero : off = 0
    · subst zero
      have skip : (0 :: rest).filter (· ≠ 0) = rest.filter (· ≠ 0) := rfl
      rw [checkL1, if_pos rfl, skip]
      exact ih first marked
    · have keep : (off :: rest).filter (· ≠ 0) = off :: rest.filter (· ≠ 0) :=
        filter_cons_of_pos (decide_eq_true zero)
      rw [keep, tablesPass_cons, tablesInBitmap_cons, if_neg (cons_ne_nil _ _)]
      rcases checkL1_cons rest zero marked with ⟨passes, next⟩ | ⟨fails, events, next, harmless⟩
      · rw [next, and_iff_right passes, imp_iff_right passes]
        obtain ⟨result, steps⟩ := ih (.inl first) (afterTable_marked fits cluster first marked)
        constructor
        · rw [result]
          refine and_congr_right fun _ => ?_
          rw [afterTable_rc first marked]
          cases rest.filter (· ≠ 0) with
          | nil =>
            rw [if_pos rfl]
            constructor
            · rintro full _ ⟨⟩
              exact full
            · intro full
              exact full off rfl
          | cons other more => rw [if_neg (cons_ne_nil _ _), lastFull_cons]
        · rw [steps, afterTable_events fits cluster first marked, and_assoc]
      · rw [next]
        constructor
        · exact ⟨(nomatch ·), fun both => absurd both.1.1 fails⟩
        · show (∀ event ∈ check.events ++ [CheckEvent.sub (cbTable header)] ++ events, _) ↔ _
          rw [forall_mem_append, forall_mem_append, forall_mem_singleton]
          constructor
          · rintro ⟨⟨earlier, -⟩, -⟩
            exact ⟨earlier, fun passes => absurd passes fails⟩
          · rintro ⟨earlier, -⟩
            exact ⟨⟨earlier, fits⟩, harmless earlier⟩

/-! ### The image -/

/-- What is marked before the tables: the header and, unless it overlaps the header, the L1 table. -/
def UsedByL1 (header : QedHeader) (n : Nat) : Prop :=
  n = 0 ∨ (¬InTable header header.u64OffL1Table.toNat 0 ∧
    InTable header header.u64OffL1Table.toNat n)

theorem markL1_spec (check : Check) : (markL1 header check).rc = check.rc ∧
      (∀ n, (markL1 header check).clusterBitmap n = true ↔ UsedByL1 header n) ∧
      ((∀ event ∈ (markL1 header check).events, event.Safe header file) ↔
        (∀ event ∈ check.events, event.Safe header file) ∧
          ∀ n, UsedByL1 header n → InBitmap header file n) := by
  have same : ({ check with clusterBitmap := fun n => n == 0 }.note [.bit 0]).clusterBitmap =
      fun n => n == 0 := rfl
  unfold markL1
  simp only
  by_cases overlaps : InTable header header.u64OffL1Table.toNat 0
  · -- The header's cluster is the first one looked at.
    obtain ⟨hit, set, result⟩ := @checkAndSet_used (fun n => n == 0) _ _
      ⟨0, overlaps.1, overlaps.2, rfl⟩
    have zero : hit = 0 := eq_of_beq set
    subst zero
    have start : offClusterStart header header.u64OffL1Table.toNat = 0 := Nat.le_zero.mp overlaps.1
    rw [same, result]
    refine ⟨rfl, fun n => ?_, ?_⟩
    · show (n == 0) = true ↔ _
      rw [beq_iff_eq]
      exact ⟨.inl, fun known => known.resolve_right fun both => both.1 overlaps⟩
    · show (∀ event ∈ check.events ++ [CheckEvent.bit 0] ++ _, _) ↔ _
      rw [start, forall_mem_append, forall_mem_append, forall_mem_singleton]
      constructor
      · rintro ⟨⟨earlier, inside⟩, -⟩
        refine ⟨earlier, ?_⟩
        rintro n (rfl | ⟨apart, -⟩)
        · exact inside
        · exact absurd overlaps apart
      · rintro ⟨earlier, inside⟩
        have first := inside 0 (.inl rfl)
        exact ⟨⟨earlier, first⟩, forall_mem_singleton.mpr first⟩
  · have unset : ∀ n, offClusterStart header header.u64OffL1Table.toNat ≤ n →
        n < offClusterEnd header header.u64OffL1Table.toNat header.u32TableSize.toNat →
        (n == 0) = false := by
      intro n low high
      apply beq_false_of_ne
      rintro rfl
      exact overlaps ⟨low, high⟩
    rw [same, checkAndSet_clear unset]
    refine ⟨rfl, fun n => ?_, ?_⟩
    · show ((n == 0) || (decide _ && decide _)) = true ↔ _
      rw [Bool.or_eq_true, beq_iff_eq, Bool.and_eq_true, decide_eq_true_iff, decide_eq_true_iff]
      exact or_congr_right (and_iff_right overlaps).symm
    · show (∀ event ∈ check.events ++ [CheckEvent.bit 0] ++ _, _) ↔ _
      rw [forall_mem_append, forall_mem_append, forall_mem_singleton, bits_safe_iff, and_assoc]
      refine and_congr_right fun _ => ⟨?_, fun inside => ⟨inside 0 (.inl rfl), ?_⟩⟩
      · rintro ⟨first, table⟩ n (rfl | ⟨-, inTable⟩)
        · exact first
        · exact table n inTable.1 inTable.2
      · intro n low high
        exact inside n (.inr ⟨overlaps, low, high⟩)

/-- The L2 tables the L1 table refers to. -/
def tables (header : QedHeader) (file : CheckFile) : List Nat :=
  (entries header file header.u64OffL1Table.toNat).filter (· ≠ 0)

/-- What the check of a file that can hold a table returns, and when its steps are harmless. -/
theorem qedCheckImage_spec (fits : cbTable header ≤ file.cbFile.toNat)
    (cluster : cbCluster header ≤ cbTable header) : ((qedCheckImage header file).rc = none ↔
        qedIsTblOffsetValid header file header.u64OffL1Table.toNat = true ∧
          TablesPass header file (UsedByL1 header) (tables header file) ∧
          lastFull header file (tables header file)) ∧
      ((∀ event ∈ (qedCheckImage header file).events, event.Safe header file) ↔
        (qedIsTblOffsetValid header file header.u64OffL1Table.toNat = true →
          (∀ n, UsedByL1 header n → InBitmap header file n) ∧
            TablesInBitmap header file (UsedByL1 header) (tables header file))) := by
  have start : ∀ event ∈ [CheckEvent.sub (cbTable header)], event.Safe header file :=
    forall_mem_singleton.mpr fits
  unfold qedCheckImage
  simp only
  cases valid : qedIsTblOffsetValid header file header.u64OffL1Table.toNat with
  | false =>
    refine ⟨⟨(nomatch ·), fun both => absurd both.1 Bool.false_ne_true⟩, ?_⟩
    exact ⟨fun _ wrong => absurd wrong Bool.false_ne_true, fun _ => start⟩
  | true =>
    obtain ⟨rc, bitmap, events⟩ := @markL1_spec header file
      ⟨fun _ => false, none, [.sub (cbTable header)]⟩
    obtain ⟨result, steps⟩ := checkL1_spec fits cluster
      (entries header file header.u64OffL1Table.toNat) (.inl rfl)
      ⟨bitmap, fun safe => (events.mp safe).2⟩
    rw [events, and_iff_right start] at steps
    constructor
    · refine result.trans ?_
      rw [and_iff_right rfl]
      refine and_congr_right fun _ => ?_
      split
      case isTrue empty =>
        refine ⟨fun _ off last => ?_, fun _ => rc⟩
        rw [tables, empty] at last
        cases last
      case isFalse => exact Iff.rfl
    · exact steps.trans ⟨fun both _ => both, fun both => both rfl⟩

/-! ### The first subtraction -/

theorem checkL2_events (list : List Nat) (check : Check) {event : CheckEvent}
    (member : event ∈ check.events) : event ∈ (checkL2 header file list check).events := by
  induction list generalizing check with
  | nil => exact member
  | cons off rest ih =>
    rw [checkL2]
    split
    · exact ih check member
    · simp only
      split
      · exact mem_append_left _ member
      · split
        · exact mem_append_left _ (mem_append_left _ member)
        · exact ih _ (mem_append_left _ (mem_append_left _ member))

theorem checkL1_events (list : List Nat) (check : Check) {event : CheckEvent}
    (member : event ∈ check.events) : event ∈ (checkL1 header file list check).events := by
  induction list generalizing check with
  | nil => exact member
  | cons off rest ih =>
    rw [checkL1]
    split
    · exact ih check member
    · simp only
      split
      · exact mem_append_left _ member
      · split
        · exact mem_append_left _ (mem_append_left _ member)
        · exact ih _ (checkL2_events _ _ (mem_append_left _ (mem_append_left _ member)))

/-- The size of a table is always subtracted from the size of the file. -/
theorem sub_mem_events : CheckEvent.sub (cbTable header) ∈ (qedCheckImage header file).events := by
  unfold qedCheckImage
  simp only
  split
  · exact mem_cons_self
  · exact checkL1_events _ _ (mem_append_left _ (mem_append_left _ mem_cons_self))

/-- A valid header has tables of at least a cluster. -/
theorem cluster_le_table (valid : qedHdrConvertToHostEndianess header = true) :
    cbCluster header ≤ cbTable header := by
  simp only [qedHdrConvertToHostEndianess, Bool.and_eq_true, decide_eq_true_iff] at valid
  obtain ⟨⟨⟨⟨⟨-, -⟩, clusterMax⟩, tableMin⟩, tableMax⟩, -⟩ := valid
  have product : header.u32TableSize.toNat * header.u32ClusterSize.toNat ≤ 16 * 2 ^ 26 :=
    Nat.mul_le_mul tableMax clusterMax
  unfold cbCluster cbTable
  rw [u32_of_lt (Nat.lt_of_le_of_lt product (by decide))]
  exact Nat.le_mul_of_pos_left _ tableMin

/-! ### Where the check is exact -/

/-- The file can hold a table; the marked tables are in the bitmap; a consistent image has no
unallocated cluster in its last L2 table; and an inconsistent one is noticed by its tables, or has
one. -/
structure NothingMissed (header : QedHeader) (file : CheckFile) : Prop where
  fits : cbTable header ≤ file.cbFile.toNat
  inBitmap : qedIsTblOffsetValid header file header.u64OffL1Table.toNat = true →
    (∀ n, UsedByL1 header n → InBitmap header file n) ∧
      TablesInBitmap header file (UsedByL1 header) (tables header file)
  consistent : Consistent header file →
    qedIsTblOffsetValid header file header.u64OffL1Table.toNat = true ∧
      TablesPass header file (UsedByL1 header) (tables header file) ∧
      lastFull header file (tables header file)
  inconsistent : ¬Consistent header file →
    qedIsTblOffsetValid header file header.u64OffL1Table.toNat = true →
      TablesPass header file (UsedByL1 header) (tables header file) →
      ¬lastFull header file (tables header file)

end

/-- The header of an image of 4 KB clusters with its L1 table behind it. -/
def smallHeader : QedHeader :=
  { u32Magic := 0x00444551
    u32ClusterSize := 4096
    u32TableSize := 1
    u64FeatureFlags := 0
    u64OffL1Table := 4096
    u64Size := 0x100000
    u32OffBackingFilename := 0
    u32BackingFilenameSize := 0 }

/-- An image without L2 tables. -/
def emptyFile : CheckFile := ⟨32768, fun _ _ => 0⟩

/-- An image with one L2 table that has no cluster. -/
def oneTableFile : CheckFile :=
  ⟨32768, fun off i => if off = 4096 ∧ i = 0 then 8192 else 0⟩

theorem tables_emptyFile : tables smallHeader emptyFile = [] := by decide +kernel

theorem tables_oneTableFile : tables smallHeader oneTableFile = [8192] := by decide +kernel

end VBox.Storage.Qed
