import VBox.Devices.VirtioRuns
import Mathlib.Data.Fintype.Pigeonhole

/-!
Walking a descriptor chain.

A chain that ends visits no descriptor twice, since what follows a descriptor is decided by its
place in the table; so it is no longer than the table. Nothing in the loop bounds a chain that does
not.
-/

namespace VBox.Devices.Virtio

variable {m : Machine} {idx : UInt16} {n : Nat} {elem result : VQueueElem}

/-- The index of the descriptor reached after a number of descriptors. -/
def chainIdx (m : Machine) (idx : UInt16) : Nat → UInt16
  | 0 => idx
  | k + 1 => chainIdx m (m.vringReadDesc idx.toNat).u16Next k

/-- The descriptor goes on to another. -/
def hasNext (m : Machine) (idx : UInt16) : Bool :=
  (m.vringReadDesc idx.toNat).u16Flags.toNat.testBit VRINGDESC_F_NEXT

theorem chainIdx_add (m : Machine) (idx : UInt16) (j k : Nat) :
    chainIdx m idx (j + k) = chainIdx m (chainIdx m idx j) k := by
  induction j generalizing idx with
  | zero => rw [Nat.zero_add, chainIdx]
  | succ j ih => rw [Nat.succ_add, chainIdx, chainIdx, ih]

/-- A chain ends within `n` descriptors if one of its first `n` goes on to no other. -/
theorem chainEnds_iff :
    chainEnds m n idx = true ↔ ∃ k < n, hasNext m (chainIdx m idx k) = false := by
  induction n generalizing idx with
  | zero =>
    constructor
    · intro ended
      cases ended
    · rintro ⟨k, small, -⟩
      exact absurd small (Nat.not_lt_zero k)
  | succ n ih =>
    rw [chainEnds, Bool.or_eq_true, Bool.not_eq_true', ih]
    constructor
    · rintro (last | ⟨k, small, last⟩)
      · exact ⟨0, Nat.succ_pos n, last⟩
      · exact ⟨k + 1, Nat.succ_lt_succ small, last⟩
    · rintro ⟨k, small, last⟩
      cases k with
      | zero => exact .inl last
      | succ k => exact .inr ⟨k, Nat.lt_of_succ_lt_succ small, last⟩

/-- Descriptors at one place of the table are followed by the same ones. -/
theorem hasNext_chainIdx_of_mod_eq {idx' : UInt16}
    (same : idx.toNat % m.queue.vring.uSize = idx'.toNat % m.queue.vring.uSize) (k : Nat) :
    hasNext m (chainIdx m idx k) = hasNext m (chainIdx m idx' k) := by
  have desc : m.vringReadDesc idx.toNat = m.vringReadDesc idx'.toNat := by
    rw [Machine.vringReadDesc, same, Machine.vringReadDesc]
  cases k with
  | zero => rw [chainIdx, chainIdx, hasNext, desc, hasNext]
  | succ k => rw [chainIdx, chainIdx, desc]

/-- A chain that ends does so within the size of the table. -/
theorem chainEnds_uSize (positive : 0 < m.queue.vring.uSize)
    (ends : chainEnds m n idx = true) : chainEnds m m.queue.vring.uSize idx = true := by
  have some : ∃ k, hasNext m (chainIdx m idx k) = false :=
    (chainEnds_iff.mp ends).imp fun _ => And.right
  -- the first descriptor that goes on to no other
  obtain ⟨k, last, first⟩ : ∃ k, hasNext m (chainIdx m idx k) = false ∧
      ∀ j < k, ¬ hasNext m (chainIdx m idx j) = false :=
    ⟨Nat.find some, Nat.find_spec some, fun _ => Nat.find_min some⟩
  refine chainEnds_iff.mpr ⟨k, ?_, last⟩
  by_contra long
  let place : Fin (k + 1) → Fin m.queue.vring.uSize := fun j =>
    ⟨(chainIdx m idx j).toNat % m.queue.vring.uSize, Nat.mod_lt _ positive⟩
  have fewer : Fintype.card (Fin m.queue.vring.uSize) < Fintype.card (Fin (k + 1)) := by
    rw [Fintype.card_fin, Fintype.card_fin]
    exact Nat.lt_succ_of_le (Nat.not_lt.mp long)
  obtain ⟨i, j, different, same⟩ := Fintype.exists_ne_map_eq_of_card_lt place fewer
  -- from the later of the two on, the chain is what it was from the earlier on
  have sooner : ∀ i j : Fin (k + 1), i < j → place i = place j → False := by
    intro i j before same
    have tail := hasNext_chainIdx_of_mod_eq (congrArg Fin.val same) (k - j)
    rw [← chainIdx_add, ← chainIdx_add, Nat.add_sub_cancel' (Nat.le_of_lt_succ j.isLt)] at tail
    refine first (i + (k - j)) ?_ (tail.trans last)
    omega
  rcases Nat.lt_or_gt_of_ne (fun equal => different (Fin.ext equal)) with before | after
  · exact sooner i j before same
  · exact sooner j i after same.symm

/-- What is read of a chain ended. -/
theorem chainEnds_of_readChain (read : m.readChain n idx elem = some result) :
    chainEnds m n idx = true := by
  induction n generalizing idx elem with
  | zero => cases read
  | succ n ih =>
    rw [Machine.readChain] at read
    rw [chainEnds, Bool.or_eq_true, Bool.not_eq_true']
    cases more : (m.vringReadDesc idx.toNat).u16Flags.toNat.testBit VRINGDESC_F_NEXT with
    | false => exact .inl rfl
    | true =>
      refine .inr ?_
      cases inward : (m.vringReadDesc idx.toNat).u16Flags.toNat.testBit VRINGDESC_F_WRITE <;>
      · simp only [inward, more, Bool.false_eq_true, if_false, if_true] at read
        split at read
        · cases read
        · exact ih read

/-- The entries stored never exceed the two arrays. -/
theorem readChain_segments (read : m.readChain n idx elem = some result)
    (inside : elem.aSegsIn.length ≤ VRING_MAX_SIZE)
    (outside : elem.aSegsOut.length ≤ VRING_MAX_SIZE) :
    result.aSegsIn.length ≤ VRING_MAX_SIZE ∧ result.aSegsOut.length ≤ VRING_MAX_SIZE := by
  induction n generalizing idx elem with
  | zero => cases read
  | succ n ih =>
    rw [Machine.readChain] at read
    cases inward : (m.vringReadDesc idx.toNat).u16Flags.toNat.testBit VRINGDESC_F_WRITE <;>
    · simp only [inward, Bool.false_eq_true, if_false, if_true] at read
      split at read
      · cases read
      case isFalse room =>
        split at read
        · refine ih read ?_ ?_ <;> simp only [List.length_append, List.length_singleton] <;> omega
        · rw [← Option.some.inj read]
          constructor <;> simp only [List.length_append, List.length_singleton] <;> omega

/-- `vqueueGet` returns, having stored at most `VRING_MAX_SIZE` entries in each array. -/
def Bounded (m : Machine) (fRemove : Bool) : Prop :=
  ∃ found m', m.vqueueGet fRemove = some (found, m') ∧ ∀ elem, found = some elem →
    elem.aSegsIn.length ≤ VRING_MAX_SIZE ∧ elem.aSegsOut.length ≤ VRING_MAX_SIZE

/-- The first descriptor of the chain `vqueueGet` is about to walk. -/
def headIdx (m : Machine) : UInt16 := m.vringReadAvail m.queue.uNextAvailIndex

/-- `vqueueGet` stays within its element exactly if the queue is empty or the chain ends. -/
theorem vqueueGet_bounded_iff {fRemove : Bool} (positive : 0 < m.queue.vring.uSize)
    (size : m.queue.vring.uSize ≤ VRING_MAX_SIZE) :
    Bounded m fRemove ↔ m.vqueueIsEmpty = true ∨ ∃ n, chainEnds m n (headIdx m) = true := by
  unfold Bounded Machine.vqueueGet
  cases empty : m.vqueueIsEmpty with
  | true => exact ⟨fun _ => .inl rfl, fun _ => ⟨none, m, if_pos rfl, fun _ none => by cases none⟩⟩
  | false =>
    rw [if_neg Bool.false_ne_true]
    have same : ∀ steps idx, chainEnds (if fRemove then m.remove else m) steps idx =
        chainEnds m steps idx := by
      intro steps idx
      cases fRemove with
      | false => rfl
      | true =>
        induction steps generalizing idx with
        | zero => rfl
        | succ steps ih => exact congrArg (_ || ·) (ih _)
    constructor
    · rintro ⟨found, m', got, -⟩
      obtain ⟨elem, read, -⟩ := Option.map_eq_some_iff.mp got
      exact .inr ⟨_, (same _ _).symm.trans (chainEnds_of_readChain read)⟩
    · rintro (impossible | ⟨n, ends⟩)
      · cases impossible
      · let start : VQueueElem :=
          { uIndex := (headIdx m).toNat.toUInt32, aSegsIn := [], aSegsOut := [] }
        have room : start.aSegsIn.length + start.aSegsOut.length + m.queue.vring.uSize ≤
            VRING_MAX_SIZE := by
          rwa [List.length_nil, Nat.zero_add]
        have enough : m.queue.vring.uSize ≤ 2 * VRING_MAX_SIZE + 1 :=
          Nat.le_trans size (by decide)
        obtain ⟨elem, read, -⟩ :=
          exists_readChain ((same _ _).trans (chainEnds_uSize positive ends)) enough room
        refine ⟨some elem, _, Option.map_eq_some_iff.mpr ⟨elem, read, rfl⟩, ?_⟩
        rintro _ ⟨⟩
        exact readChain_segments read (Nat.zero_le _) (Nat.zero_le _)

/-- A queue of one place with a head published, and one descriptor with the given flags that names
itself as the next. -/
def oneDescriptor (u16Flags : UInt16) : Machine :=
  ((Machine.initial 1 1 (fun _ => ⟨0, 0, u16Flags, 0⟩) (fun _ => 0) (fun _ => ⟨0, 0⟩)).stage
    0).publish

theorem vqueueGet_bounded_iff_oneDescriptor :
    Bounded (oneDescriptor 0) true ↔ (oneDescriptor 0).vqueueIsEmpty = true ∨
      ∃ n, chainEnds (oneDescriptor 0) n (headIdx (oneDescriptor 0)) = true :=
  vqueueGet_bounded_iff (by decide) (by decide)

/-- A descriptor that goes on to itself takes the walk out of the element's arrays. -/
theorem exists_chain_unbounded :
    ¬ ∀ (m : Machine) (fRemove : Bool), 0 < m.queue.vring.uSize →
      m.queue.vring.uSize ≤ VRING_MAX_SIZE → Bounded m fRemove := by
  intro all
  obtain ⟨found, m', got, -⟩ := all (oneDescriptor 1) false (by decide) (by decide)
  have published : (oneDescriptor 1).vqueueIsEmpty = false := by decide
  rw [Machine.vqueueGet, published, if_neg Bool.false_ne_true] at got
  obtain ⟨elem, read, -⟩ := Option.map_eq_some_iff.mp got
  obtain ⟨k, -, last⟩ := chainEnds_iff.mp (chainEnds_of_readChain read)
  have more : ∀ idx, hasNext (oneDescriptor 1) idx = true := fun _ =>
    show (1 : UInt16).toNat.testBit VRINGDESC_F_NEXT = true by decide
  exact Bool.false_ne_true (last.symm.trans (more _))

end VBox.Devices.Virtio
