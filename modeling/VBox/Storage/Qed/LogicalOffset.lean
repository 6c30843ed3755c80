import VBox.Lib.TwoPart
import VBox.Storage.Qed.Image

/-!
Which disk sizes the L1 and L2 tables of a QED image can address.

The masks and shifts do what they are meant to only where the cluster size and the number of
table entries are powers of two. `Addressable` says up to which disk size no two offsets get the
same place, for the other sizes as well, and `neverAliases_iff` that it is exact for every image
that was opened or created and perhaps resized.
-/

namespace VBox.Storage.Qed

open VBox.Lib

/-! ### The map of a sized image -/

/-- What the header checks and the fixed sizes of a new image leave of the sizes. -/
structure Sized (image : Image) : Prop where
  cluster_ge : 2 ^ 12 ≤ image.cbCluster
  cluster_le : image.cbCluster ≤ 2 ^ 26
  entries_ge : 2 ≤ image.cTableEntries
  entries_le : image.cTableEntries ≤ 2 ^ 27
  size_lt : image.cbSize < 2 ^ 64
  masks : qedTableMasksInit image = image

theorem shiftOutZeros_two_pow_mul (k : Nat) {m : Nat} (odd : Odd m) (uPower2 : Nat) :
    shiftOutZeros (2 ^ k * m) uPower2 = (m, uPower2 + k) := by
  have positive : 0 < m := odd.pos
  induction k generalizing uPower2 with
  | zero =>
    have bit : m &&& 1 = 1 := by
      rw [Nat.and_one_is_mod]
      exact Nat.odd_iff.mp odd
    rw [Nat.pow_zero, Nat.one_mul, shiftOutZeros, dif_neg positive.ne', bit]
    rfl
  | succ k ih =>
    have nonzero : 2 ^ (k + 1) * m ≠ 0 := (Nat.mul_pos (Nat.two_pow_pos _) positive).ne'
    have double : 2 ^ (k + 1) * m = 2 * (2 ^ k * m) := by ring
    have bit : 2 ^ (k + 1) * m &&& 1 = 0 := by
      rw [Nat.and_one_is_mod, double, Nat.mul_mod_right]
    have half : (2 ^ (k + 1) * m) >>> 1 = 2 ^ k * m := by
      rw [Nat.shiftRight_eq_div_pow, double, Nat.pow_one, Nat.mul_div_cancel_left _ (by decide)]
    rw [shiftOutZeros, dif_neg nonzero, if_pos bit, half, ih]
    congr 1
    ring

@[simp] theorem qedGetPowerOfTwo_two_pow (k : Nat) : qedGetPowerOfTwo (2 ^ k) = k := by
  have shifted := shiftOutZeros_two_pow_mul k odd_one 0
  rw [Nat.mul_one, Nat.zero_add] at shifted
  rw [qedGetPowerOfTwo, if_neg (Nat.two_pow_pos k).ne', shifted]
  rfl

theorem qedGetPowerOfTwo_of_not_isPowerOfTwo {n : Nat} (other : ¬ n.isPowerOfTwo) :
    qedGetPowerOfTwo n = 0 := by
  by_cases zero : n = 0
  · rw [qedGetPowerOfTwo, if_pos zero]
  · obtain ⟨k, m, odd, rfl, -⟩ := exists_twoPart zero
    have rest : m ≠ 1 := by
      rintro rfl
      exact other ⟨k, Nat.mul_one _⟩
    rw [qedGetPowerOfTwo, if_neg zero, shiftOutZeros_two_pow_mul k odd]
    exact if_neg rest

variable {off : Nat}

/-- A field of an offset under a 64-bit mask. -/
theorem masked_shift (small : off < 2 ^ 64) (mask shift : Nat) :
    (off &&& u64 (mask <<< shift)) >>> shift = (off >>> shift) &&& mask := by
  rw [u64, ← and_eq_and_mod small, Nat.shiftRight_and_distrib, Nat.shiftLeft_shiftRight]

section

variable {image : Image} (sized : Sized image)
include sized

/-- The place of an offset, with the masks and shifts spelled out. -/
theorem qedConvertLogicalOffset_eq (inside : off < image.cbSize) :
    qedConvertLogicalOffset image off =
      { idxL1 := (off >>> (qedGetPowerOfTwo image.cbCluster
          + qedGetPowerOfTwo image.cTableEntries)) &&& (image.cTableEntries - 1)
        idxL2 := (off >>> qedGetPowerOfTwo image.cbCluster) &&& (image.cTableEntries - 1)
        offCluster := off &&& (image.cbCluster - 1) } := by
  have small : off < 2 ^ 64 := inside.trans sized.size_lt
  have entries := sized.entries_le
  have cluster := sized.cluster_le
  have narrow : ∀ n mask, mask < 2 ^ 32 → u32 (n &&& mask) = n &&& mask := fun n mask bound =>
    u32_of_lt (lt_of_le_of_lt Nat.and_le_right bound)
  have masks := sized.masks
  have offset : image.fOffsetMask = image.cbCluster - 1 := by rw [← masks]; rfl
  have l2Mask : image.fL2Mask =
      u64 ((image.cTableEntries - 1) <<< qedGetPowerOfTwo image.cbCluster) := by
    rw [← masks]; rfl
  have l2Shift : image.cL2Shift = qedGetPowerOfTwo image.cbCluster := by rw [← masks]; rfl
  have l1Mask : image.fL1Mask = u64 ((image.cTableEntries - 1)
      <<< (qedGetPowerOfTwo image.cbCluster + qedGetPowerOfTwo image.cTableEntries)) := by
    rw [← masks]; rfl
  have l1Shift : image.cL1Shift =
      qedGetPowerOfTwo image.cbCluster + qedGetPowerOfTwo image.cTableEntries := by
    rw [← masks]; rfl
  rw [qedConvertLogicalOffset, offset, l2Mask, l2Shift, l1Mask, l1Shift, masked_shift small,
    masked_shift small, narrow _ _ (by omega), narrow _ _ (by omega), narrow _ _ (by omega)]

end

/-! ### The property -/

/-- The map from the offsets below the disk size to table indices and offset in the cluster. -/
structure NeverAliases (image : Image) : Prop where
  injective : ∀ off < image.cbSize, ∀ off' < image.cbSize,
    qedConvertLogicalOffset image off = qedConvertLogicalOffset image off' → off = off'
  idxL1_lt : ∀ off < image.cbSize,
    (qedConvertLogicalOffset image off).idxL1 < image.cTableEntries
  idxL2_lt : ∀ off < image.cbSize,
    (qedConvertLogicalOffset image off).idxL2 < image.cTableEntries
  offCluster_lt : ∀ off < image.cbSize,
    (qedConvertLogicalOffset image off).offCluster < image.cbCluster
  /-- Two offsets get the same table entry exactly when they lie in the same cluster. -/
  entry_eq_iff : ∀ off < image.cbSize, ∀ off' < image.cbSize,
    ((qedConvertLogicalOffset image off).idxL1 = (qedConvertLogicalOffset image off').idxL1 ∧
      (qedConvertLogicalOffset image off).idxL2 = (qedConvertLogicalOffset image off').idxL2) ↔
    off / image.cbCluster = off' / image.cbCluster

/-- The disk sizes the tables address. For sizes that are powers of two these are all up to the
clusters the two levels of tables have entries for; where a size is no power of two, the shift
computed for it is zero and only a few low bits of an offset survive the masks. -/
def Addressable (image : Image) : Prop :=
  (image.cbCluster.isPowerOfTwo ∧ image.cTableEntries.isPowerOfTwo ∧
      image.cbSize ≤ image.cbCluster * image.cTableEntries * image.cTableEntries) ∨
    (image.cbCluster.isPowerOfTwo ∧ ¬ image.cTableEntries.isPowerOfTwo ∧
      image.cbSize ≤ image.cbCluster * twoPart image.cTableEntries) ∨
    (¬ image.cbCluster.isPowerOfTwo ∧ image.cbSize ≤ twoPart image.cbCluster ∧
      image.cbSize ≤ twoPart (image.cTableEntries - 1))

/-- Two offsets with one place break the property. -/
theorem NeverAliases.false_of_alias {image : Image} (never : NeverAliases image) {off : Nat}
    (positive : 0 < off) (inside : off < image.cbSize)
    (clash : qedConvertLogicalOffset image off = qedConvertLogicalOffset image 0) : False :=
  positive.ne' (never.injective off inside 0 (positive.trans inside) clash)

section

variable {image : Image} (sized : Sized image)
include sized

/-- The index and offset bounds hold whatever the sizes are. -/
theorem place_lt (inside : off < image.cbSize) :
    (qedConvertLogicalOffset image off).idxL1 < image.cTableEntries ∧
      (qedConvertLogicalOffset image off).idxL2 < image.cTableEntries ∧
      (qedConvertLogicalOffset image off).offCluster < image.cbCluster := by
  have entries := sized.entries_ge
  have cluster := sized.cluster_ge
  have below : ∀ n m, 0 < m → n &&& (m - 1) < m := fun n m positive =>
    lt_of_le_of_lt Nat.and_le_right (Nat.sub_lt positive Nat.one_pos)
  rw [qedConvertLogicalOffset_eq sized inside]
  exact ⟨below _ _ (by omega), below _ _ (by omega), below _ _ (by omega)⟩

/-- The property from a map that is injective and agrees with the division into clusters. -/
theorem NeverAliases.of_entries (injective : ∀ off < image.cbSize, ∀ off' < image.cbSize,
      qedConvertLogicalOffset image off = qedConvertLogicalOffset image off' → off = off')
    (entry : ∀ off < image.cbSize, ∀ off' < image.cbSize,
      ((qedConvertLogicalOffset image off).idxL1 = (qedConvertLogicalOffset image off').idxL1 ∧
        (qedConvertLogicalOffset image off).idxL2 = (qedConvertLogicalOffset image off').idxL2) ↔
      off / image.cbCluster = off' / image.cbCluster) : NeverAliases image where
  injective := injective
  idxL1_lt := fun _ inside => (place_lt sized inside).1
  idxL2_lt := fun _ inside => (place_lt sized inside).2.1
  offCluster_lt := fun _ inside => (place_lt sized inside).2.2
  entry_eq_iff := entry

/-! ### Powers of two -/

variable {k t : Nat}

section

variable (cluster : image.cbCluster = 2 ^ k) (entries : image.cTableEntries = 2 ^ t)

include cluster entries

/-- Both sizes powers of two: the place is the offset cut into its three fields. -/
theorem place_of_powers {off : Nat} (inside : off < image.cbSize) :
    qedConvertLogicalOffset image off =
      ⟨off / 2 ^ (k + t) % 2 ^ t, off / 2 ^ k % 2 ^ t, off % 2 ^ k⟩ := by
  rw [qedConvertLogicalOffset_eq sized inside, cluster, entries]
  simp only [qedGetPowerOfTwo_two_pow, Nat.and_two_pow_sub_one_eq_mod, Nat.shiftRight_eq_div_pow]

theorem neverAliases_of_powers (fits : image.cbSize ≤ 2 ^ k * 2 ^ t * 2 ^ t) :
    NeverAliases image := by
  -- The cluster number is put together again from the two indices.
  have number : ∀ off < image.cbSize,
      off / 2 ^ k = off / 2 ^ (k + t) % 2 ^ t * 2 ^ t + off / 2 ^ k % 2 ^ t := by
    intro off inside
    have high : off / 2 ^ (k + t) < 2 ^ t := by
      rw [Nat.div_lt_iff_lt_mul (Nat.two_pow_pos _), Nat.pow_add]
      calc off < image.cbSize := inside
        _ ≤ 2 ^ k * 2 ^ t * 2 ^ t := fits
        _ = 2 ^ t * (2 ^ k * 2 ^ t) := Nat.mul_comm _ _
    rw [Nat.mod_eq_of_lt high, Nat.pow_add, ← Nat.div_div_eq_div_mul]
    exact (Nat.div_add_mod' _ _).symm
  apply NeverAliases.of_entries sized
  · intro off inside off' inside' same
    rw [place_of_powers sized cluster entries inside,
      place_of_powers sized cluster entries inside'] at same
    obtain ⟨idxL1, idxL2, offCluster⟩ := Place.mk.inj same
    have quotient : off / 2 ^ k = off' / 2 ^ k := by
      rw [number off inside, number off' inside', idxL1, idxL2]
    rw [← Nat.div_add_mod off (2 ^ k), ← Nat.div_add_mod off' (2 ^ k), quotient, offCluster]
  · intro off inside off' inside'
    rw [place_of_powers sized cluster entries inside,
      place_of_powers sized cluster entries inside', cluster]
    constructor
    · rintro ⟨idxL1, idxL2⟩
      simp only at idxL1 idxL2
      rw [number off inside, number off' inside', idxL1, idxL2]
    · intro quotient
      simp only [Nat.pow_add, ← Nat.div_div_eq_div_mul, quotient, and_self]

theorem not_neverAliases_of_powers (beyond : 2 ^ k * 2 ^ t * 2 ^ t < image.cbSize) :
    ¬ NeverAliases image := by
  intro never
  have positive : 0 < 2 ^ k * 2 ^ t * 2 ^ t :=
    Nat.mul_pos (Nat.mul_pos (Nat.two_pow_pos k) (Nat.two_pow_pos t)) (Nat.two_pow_pos t)
  apply never.false_of_alias positive beyond
  rw [place_of_powers sized cluster entries beyond,
    place_of_powers sized cluster entries (positive.trans beyond)]
  simp only [Nat.pow_add, Nat.mul_assoc, Nat.zero_div, Nat.zero_mod]
  congr 1
  · rw [← Nat.mul_assoc, Nat.mul_div_cancel_left _ (by positivity), Nat.mod_self]
  · rw [Nat.mul_div_cancel_left _ (by positivity), Nat.mul_mod_right]
  · exact Nat.mul_mod_right _ _

end

/-! ### A table of another size -/

section

variable (cluster : image.cbCluster = 2 ^ k) (other : ¬ image.cTableEntries.isPowerOfTwo)

include cluster other

/-- The entries no power of two: both indices come from the low bits of the cluster number. -/
theorem place_of_cluster_power {off : Nat} (inside : off < image.cbSize) :
    qedConvertLogicalOffset image off =
      ⟨off / 2 ^ k &&& (image.cTableEntries - 1), off / 2 ^ k &&& (image.cTableEntries - 1),
        off % 2 ^ k⟩ := by
  rw [qedConvertLogicalOffset_eq sized inside, cluster, qedGetPowerOfTwo_of_not_isPowerOfTwo other]
  simp only [qedGetPowerOfTwo_two_pow, Nat.and_two_pow_sub_one_eq_mod,
    Nat.shiftRight_eq_div_pow, Nat.add_zero]

theorem neverAliases_of_cluster_power (fits : image.cbSize ≤ 2 ^ k * twoPart image.cTableEntries) :
    NeverAliases image := by
  have nonzero : image.cTableEntries ≠ 0 := by
    have := sized.entries_ge
    omega
  have kept : ∀ off < image.cbSize, off / 2 ^ k &&& (image.cTableEntries - 1) = off / 2 ^ k := by
    intro off inside
    apply and_pred_of_lt_twoPart nonzero
    rw [Nat.div_lt_iff_lt_mul (Nat.two_pow_pos k), Nat.mul_comm]
    exact inside.trans_le fits
  apply NeverAliases.of_entries sized
  · intro off inside off' inside' same
    rw [place_of_cluster_power sized cluster other inside,
      place_of_cluster_power sized cluster other inside', kept off inside,
      kept off' inside'] at same
    obtain ⟨quotient, -, offCluster⟩ := Place.mk.inj same
    rw [← Nat.div_add_mod off (2 ^ k), ← Nat.div_add_mod off' (2 ^ k), quotient, offCluster]
  · intro off inside off' inside'
    rw [place_of_cluster_power sized cluster other inside,
      place_of_cluster_power sized cluster other inside', kept off inside, kept off' inside',
      cluster]
    exact and_self_iff

theorem not_neverAliases_of_cluster_power
    (beyond : 2 ^ k * twoPart image.cTableEntries < image.cbSize) : ¬ NeverAliases image := by
  intro never
  have nonzero : image.cTableEntries ≠ 0 := by
    have := sized.entries_ge
    omega
  have positive : 0 < 2 ^ k * twoPart image.cTableEntries :=
    Nat.mul_pos (Nat.two_pow_pos k) (Nat.two_pow_pos _)
  apply never.false_of_alias positive beyond
  rw [place_of_cluster_power sized cluster other beyond,
    place_of_cluster_power sized cluster other (positive.trans beyond),
    Nat.mul_div_cancel_left _ (Nat.two_pow_pos k), twoPart_and_pred nonzero, Nat.mul_mod_right]
  simp only [Nat.zero_div, Nat.zero_and, Nat.zero_mod]

end

/-! ### A cluster of another size -/

section

variable (other : ¬ image.cbCluster.isPowerOfTwo)

include other

/-- The cluster size no power of two: nothing is shifted out for it. -/
theorem place_of_not_power {off : Nat} (inside : off < image.cbSize) :
    qedConvertLogicalOffset image off =
      ⟨(off >>> qedGetPowerOfTwo image.cTableEntries) &&& (image.cTableEntries - 1),
        off &&& (image.cTableEntries - 1), off &&& (image.cbCluster - 1)⟩ := by
  rw [qedConvertLogicalOffset_eq sized inside, qedGetPowerOfTwo_of_not_isPowerOfTwo other,
    Nat.zero_add]
  rfl

theorem neverAliases_of_not_power (fitsCluster : image.cbSize ≤ twoPart image.cbCluster)
    (fitsEntries : image.cbSize ≤ twoPart (image.cTableEntries - 1)) : NeverAliases image := by
  have clusterNonzero : image.cbCluster ≠ 0 := by
    have := sized.cluster_ge
    omega
  have entriesNonzero : image.cTableEntries - 1 ≠ 0 := by
    have := sized.entries_ge
    omega
  have place : ∀ off < image.cbSize, qedConvertLogicalOffset image off = ⟨0, 0, off⟩ := by
    intro off inside
    have low := inside.trans_le fitsEntries
    have shifted : off >>> qedGetPowerOfTwo image.cTableEntries < twoPart _ :=
      lt_of_le_of_lt (Nat.shiftRight_le _ _) low
    rw [place_of_not_power sized other inside, and_eq_zero_of_lt_twoPart entriesNonzero low,
      and_eq_zero_of_lt_twoPart entriesNonzero shifted,
      and_pred_of_lt_twoPart clusterNonzero (inside.trans_le fitsCluster)]
  have first : ∀ off < image.cbSize, off / image.cbCluster = 0 := fun off inside =>
    Nat.div_eq_of_lt ((inside.trans_le fitsCluster).trans
      (twoPart_lt_of_not_isPowerOfTwo clusterNonzero other))
  apply NeverAliases.of_entries sized
  · intro off inside off' inside' same
    rw [place off inside, place off' inside'] at same
    exact (Place.mk.inj same).2.2
  · intro off inside off' inside'
    rw [place off inside, place off' inside', first off inside, first off' inside']
    exact and_self_iff

theorem not_neverAliases_of_not_power (beyond : twoPart image.cbCluster < image.cbSize ∨
      twoPart (image.cTableEntries - 1) < image.cbSize) : ¬ NeverAliases image := by
  intro never
  have clusterNonzero : image.cbCluster ≠ 0 := by
    have := sized.cluster_ge
    omega
  have entriesNonzero : image.cTableEntries - 1 ≠ 0 := by
    have := sized.entries_ge
    omega
  have partLt := twoPart_lt_of_not_isPowerOfTwo clusterNonzero other
  have start : 0 < image.cbSize → qedConvertLogicalOffset image 0 = ⟨0, 0, 0⟩ := by
    intro inside
    rw [place_of_not_power sized other inside]
    simp only [Nat.zero_shiftRight, Nat.zero_and]
  have positive : ∀ n, 0 < twoPart n := fun n => Nat.two_pow_pos _
  -- Inside the first cluster both indices have to stay what they are at its start.
  have sameEntry : ∀ off < image.cbSize, off < image.cbCluster →
      (qedConvertLogicalOffset image off).idxL1 = 0 ∧
        (qedConvertLogicalOffset image off).idxL2 = 0 := by
    intro off inside first
    have here : off / image.cbCluster = 0 / image.cbCluster := by
      rw [Nat.div_eq_of_lt first, Nat.zero_div]
    have same := (never.entry_eq_iff off inside 0 (by omega)).mpr here
    rwa [start (by omega)] at same
  by_cases clusterOver : twoPart image.cbCluster < image.cbSize
  · have same := sameEntry _ clusterOver partLt
    apply never.false_of_alias (positive _) clusterOver
    rw [start (by omega)]
    rw [place_of_not_power sized other clusterOver] at same ⊢
    obtain ⟨idxL1, idxL2⟩ := same
    simp only at idxL1 idxL2
    rw [idxL1, idxL2, twoPart_and_pred clusterNonzero]
  · have entriesOver := beyond.resolve_left clusterOver
    have same := (sameEntry _ entriesOver (by omega)).2
    rw [place_of_not_power sized other entriesOver] at same
    simp only [twoPart_and_self entriesNonzero] at same
    exact (positive (image.cTableEntries - 1)).ne' same

end

theorem neverAliases_iff_of_sized : NeverAliases image ↔ Addressable image := by
  constructor
  · intro never
    by_cases clusterPower : image.cbCluster.isPowerOfTwo
    · obtain ⟨k, cluster⟩ := clusterPower
      by_cases tablePower : image.cTableEntries.isPowerOfTwo
      · obtain ⟨t, entries⟩ := tablePower
        refine .inl ⟨⟨k, cluster⟩, ⟨t, entries⟩, ?_⟩
        by_contra beyond
        rw [cluster, entries, Nat.not_le] at beyond
        exact not_neverAliases_of_powers sized cluster entries beyond never
      · refine .inr (.inl ⟨⟨k, cluster⟩, tablePower, ?_⟩)
        by_contra beyond
        rw [cluster, Nat.not_le] at beyond
        exact not_neverAliases_of_cluster_power sized cluster tablePower beyond never
    · refine .inr (.inr ⟨clusterPower, ?_, ?_⟩)
      · by_contra beyond
        exact not_neverAliases_of_not_power sized clusterPower (.inl (Nat.not_le.mp beyond)) never
      · by_contra beyond
        exact not_neverAliases_of_not_power sized clusterPower (.inr (Nat.not_le.mp beyond)) never
  · rintro (⟨⟨k, cluster⟩, ⟨t, entries⟩, fits⟩ | ⟨⟨k, cluster⟩, other, fits⟩ |
      ⟨other, fitsCluster, fitsEntries⟩)
    · exact neverAliases_of_powers sized cluster entries (by rwa [cluster, entries] at fits)
    · exact neverAliases_of_cluster_power sized cluster other (by rwa [cluster] at fits)
    · exact neverAliases_of_not_power sized other fitsCluster fitsEntries

end

/-! ### The images the backend makes -/

/-- Images that were opened or created, and then resized any number of times. -/
inductive Reachable : Image → Prop where
  | opened {env : OpenEnv} {fReadOnly : Bool} {image : Image} :
      qedOpenImage env fReadOnly = .ok image → Reachable image
  | created {env : CreateEnv} {cbSize : UInt64} {fFixed : Bool} {image : Image} :
      qedCreateImage env cbSize fFixed = .ok image → Reachable image
  | resized {image : Image} (cbSize : UInt64) (flushImage : Except Error Unit) :
      Reachable image → Reachable (qedResize image cbSize flushImage).2

theorem bind_eq_ok {α β : Type} {first : Except Error α} {next : α → Except Error β} {b : β}
    (success : (first >>= next) = .ok b) : ∃ a, first = .ok a ∧ next a = .ok b := by
  cases first with
  | error e => cases success
  | ok a => exact ⟨a, rfl, success⟩

theorem ensure_eq_ok {condition : Bool} {error : Error} {u : Unit}
    (success : ensure condition error = .ok u) : condition = true := by
  cases condition with
  | true => rfl
  | false => cases success

/-- An opened image comes from a header that passed the checks. -/
theorem qedOpenImage_eq_ok {env : OpenEnv} {fReadOnly : Bool} {image : Image}
    (success : qedOpenImage env fReadOnly = .ok image) :
    ∃ header cbFile, qedHdrConvertToHostEndianess header = true ∧
      image = imageOfHeader header cbFile := by
  unfold qedOpenImage at success
  obtain ⟨_, -, success⟩ := bind_eq_ok success
  obtain ⟨cbFile, -, success⟩ := bind_eq_ok success
  obtain ⟨_, -, success⟩ := bind_eq_ok success
  obtain ⟨header, -, success⟩ := bind_eq_ok success
  obtain ⟨_, checked, success⟩ := bind_eq_ok success
  obtain ⟨_, -, success⟩ := bind_eq_ok success
  obtain ⟨_, -, success⟩ := bind_eq_ok success
  obtain ⟨_, -, success⟩ := bind_eq_ok success
  obtain ⟨_, -, success⟩ := bind_eq_ok success
  obtain ⟨_, -, success⟩ := bind_eq_ok success
  obtain ⟨_, -, success⟩ := bind_eq_ok success
  obtain ⟨_, -, success⟩ := bind_eq_ok success
  exact ⟨header, cbFile, ensure_eq_ok checked, (Except.ok.inj success).symm⟩

theorem qedCreateImage_eq_ok {env : CreateEnv} {cbSize : UInt64} {fFixed : Bool} {image : Image}
    (success : qedCreateImage env cbSize fFixed = .ok image) : image = freshImage cbSize.toNat := by
  unfold qedCreateImage at success
  obtain ⟨_, -, success⟩ := bind_eq_ok success
  obtain ⟨_, -, success⟩ := bind_eq_ok success
  obtain ⟨_, -, success⟩ := bind_eq_ok success
  obtain ⟨_, -, success⟩ := bind_eq_ok success
  obtain ⟨_, -, success⟩ := bind_eq_ok success
  exact (Except.ok.inj success).symm

theorem sized_imageOfHeader {header : QedHeader} (cbFile : Nat)
    (checked : qedHdrConvertToHostEndianess header = true) :
    Sized (imageOfHeader header cbFile) := by
  simp only [qedHdrConvertToHostEndianess, Bool.and_eq_true, decide_eq_true_eq] at checked
  obtain ⟨⟨⟨⟨⟨-, clusterGe⟩, clusterLe⟩, tableGe⟩, tableLe⟩, -⟩ := checked
  have productGe : 1 * 2 ^ 12 ≤ header.u32TableSize.toNat * header.u32ClusterSize.toNat :=
    Nat.mul_le_mul tableGe clusterGe
  have productLe : header.u32TableSize.toNat * header.u32ClusterSize.toNat ≤ 16 * 2 ^ 26 :=
    Nat.mul_le_mul tableLe clusterLe
  have table : u32 (header.u32TableSize.toNat * header.u32ClusterSize.toNat) =
      header.u32TableSize.toNat * header.u32ClusterSize.toNat := u32_of_lt (by omega)
  constructor
  case cluster_ge => exact clusterGe
  case cluster_le => exact clusterLe
  case entries_ge =>
    change 2 ≤ u32 _ / 8
    rw [table]
    omega
  case entries_le =>
    change u32 _ / 8 ≤ 2 ^ 27
    rw [table]
    omega
  case size_lt => exact header.u64Size.toNat_lt
  case masks => rfl

theorem sized_freshImage (cbSize : UInt64) : Sized (freshImage cbSize.toNat) := by
  constructor
  case cluster_ge => exact (by decide : 2 ^ 12 ≤ 64 * 1024)
  case cluster_le => exact (by decide : 64 * 1024 ≤ 2 ^ 26)
  case entries_ge => exact (by decide : 2 ≤ u32 (4 * (64 * 1024)) / 8)
  case entries_le => exact (by decide : u32 (4 * (64 * 1024)) / 8 ≤ 2 ^ 27)
  case size_lt => exact cbSize.toNat_lt
  case masks => rfl

/-- A resize changes nothing but the size. -/
theorem qedResize_snd (image : Image) (cbSize : UInt64) (flushImage : Except Error Unit) :
    (qedResize image cbSize flushImage).2 = image ∨
      (qedResize image cbSize flushImage).2 = { image with cbSize := cbSize.toNat } := by
  unfold qedResize
  split
  · exact .inl rfl
  · split
    · split
      · exact .inl rfl
      · cases flushImage with
        | ok => exact .inr rfl
        | error => exact .inl rfl
    · exact .inl rfl

theorem Sized.resize {image : Image} (sized : Sized image) (cbSize : UInt64) :
    Sized { image with cbSize := cbSize.toNat } where
  cluster_ge := sized.cluster_ge
  cluster_le := sized.cluster_le
  entries_ge := sized.entries_ge
  entries_le := sized.entries_le
  size_lt := cbSize.toNat_lt
  masks := congrArg (fun i : Image => { i with cbSize := cbSize.toNat }) sized.masks

theorem Reachable.sized {image : Image} (reachable : Reachable image) : Sized image := by
  induction reachable with
  | opened success =>
    obtain ⟨header, cbFile, checked, rfl⟩ := qedOpenImage_eq_ok success
    exact sized_imageOfHeader cbFile checked
  | created success =>
    rw [qedCreateImage_eq_ok success]
    exact sized_freshImage _
  | @resized image cbSize flushImage _ ih =>
    rcases qedResize_snd image cbSize flushImage with same | larger
    · rw [same]
      exact ih
    · rw [larger]
      exact ih.resize cbSize

/-- No two offsets of an image share a place exactly when the image's tables address its size. -/
theorem neverAliases_iff {image : Image} (reachable : Reachable image) :
    NeverAliases image ↔ Addressable image :=
  neverAliases_iff_of_sized reachable.sized

/-- An environment in which nothing fails. -/
def CreateEnv.fine : CreateEnv :=
  { openFile := .ok (), allocL1Table := true, cacheCreate := .ok (), flushImage := .ok () }

/-- A new image of 1 GB is reachable. -/
theorem neverAliases_iff_fresh :
    Reachable (freshImage (2 ^ 30)) ∧
      (NeverAliases (freshImage (2 ^ 30)) ↔ Addressable (freshImage (2 ^ 30))) :=
  have reachable : Reachable (freshImage (2 ^ 30)) :=
    .created (show qedCreateImage .fine 0x40000000 false = _ from rfl)
  ⟨reachable, neverAliases_iff reachable⟩

/-- The masks and shifts of the default sizes. -/
theorem qedConvertLogicalOffset_freshImage {cbSize : Nat} :
    qedConvertLogicalOffset (freshImage cbSize) off =
      ⟨u32 ((off &&& u64 (32767 <<< 31)) >>> 31), u32 ((off &&& u64 (32767 <<< 16)) >>> 16),
        u32 (off &&& 65535)⟩ := by
  have cluster : qedGetPowerOfTwo QED_CLUSTER_SIZE_DEFAULT = 16 := qedGetPowerOfTwo_two_pow 16
  have entries : qedGetPowerOfTwo (u32 (QED_TABLE_SIZE_DEFAULT * QED_CLUSTER_SIZE_DEFAULT) / 8)
      = 15 := qedGetPowerOfTwo_two_pow 15
  simp only [freshImage, qedTableMasksInit, qedConvertLogicalOffset, cluster, entries]
  rfl

/-- The tables of a new image end at 64 TB, but an image of one cluster more is created, and its
last cluster shares its table entry with the first. -/
theorem exists_alias_above_64TB :
    ¬ ∀ image, Reachable image → NeverAliases image := by
  intro all
  have reachable : Reachable (freshImage (2 ^ 46 + 2 ^ 16)) :=
    .created (show qedCreateImage .fine 0x400000010000 false = _ from rfl)
  have inside : 2 ^ 46 < (freshImage (2 ^ 46 + 2 ^ 16)).cbSize :=
    (by decide : 2 ^ 46 < 2 ^ 46 + 2 ^ 16)
  apply (all _ reachable).false_of_alias (by decide) inside
  rw [qedConvertLogicalOffset_freshImage, qedConvertLogicalOffset_freshImage]
  decide

end VBox.Storage.Qed
