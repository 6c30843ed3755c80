import VBox.Storage.Vhd.Repair

/-!
What the checks of the block allocation table keep.

Where every entry that fits into the file has a bit of its own in the block bitmap, an entry is kept
exactly if it fits and is the first one with its value, and the checks of the entries that are left
find nothing.
-/

namespace VBox.Storage.Vhd

open VBox.Lib List

/-- The entry's block fits into the file. -/
def BatLimits.fits (limits : BatLimits) (entry : Nat) : Bool :=
  entry != cleared && decide (entry * VHD_SECTOR_SIZE + limits.cbBlock ≤ limits.cbFile)

/-- The first entries of each value among those that pass, the others cleared. -/
def firsts (passes : Nat → Bool) : List Nat → List Nat → List Nat
  | _, [] => []
  | seen, entry :: rest =>
    if passes entry = true ∧ entry ∉ seen then entry :: firsts passes (entry :: seen) rest
    else cleared :: firsts passes seen rest

section Firsts

variable {passes : Nat → Bool}

@[simp] theorem length_firsts (seen entries : List Nat) :
    (firsts passes seen entries).length = entries.length := by
  induction entries generalizing seen with
  | nil => rfl
  | cons entry rest ih =>
    rw [firsts]
    split <;> simp [ih]

theorem firsts_getElem? (seen entries : List Nat) (i : Nat) :
    (firsts passes seen entries)[i]? = entries[i]?.map fun entry =>
      if passes entry = true ∧ entry ∉ seen ∧ entry ∉ entries.take i then entry else cleared := by
  induction entries generalizing seen i with
  | nil => simp [firsts]
  | cons entry rest ih =>
    rw [firsts]
    cases i with
    | zero => split <;> simp_all
    | succ i =>
      split
      · rename_i kept
        simp only [getElem?_cons_succ, ih, take_succ_cons, mem_cons, not_or]
        congr 1
        funext other
        exact if_congr (by tauto) rfl rfl
      · rename_i dropped
        simp only [getElem?_cons_succ, ih, take_succ_cons, mem_cons, not_or]
        congr 1
        funext other
        refine if_congr ⟨fun h => ⟨h.1, h.2.1, ?_, h.2.2⟩, fun h => ⟨h.1, h.2.1, h.2.2.2⟩⟩ rfl rfl
        intro same
        exact dropped ⟨same ▸ h.1, same ▸ h.2.1⟩

/-- What has been kept is kept. -/
theorem firsts_firsts (free : passes cleared = false) (seen entries : List Nat) :
    firsts passes seen (firsts passes seen entries) = firsts passes seen entries := by
  induction entries generalizing seen with
  | nil => rfl
  | cons entry rest ih =>
    by_cases kept : passes entry = true ∧ entry ∉ seen
    · rw [firsts, if_pos kept, firsts, if_pos kept, ih]
    · rw [firsts, if_neg kept, firsts, if_neg (by simp [free]), ih]

theorem mem_of_mem_firsts {seen entries : List Nat} {entry : Nat}
    (member : entry ∈ firsts passes seen entries) : entry = cleared ∨ entry ∈ entries := by
  induction entries generalizing seen with
  | nil => cases member
  | cons head rest ih =>
    rw [firsts] at member
    split at member
    all_goals
      rcases mem_cons.mp member with same | member
      · first
          | exact .inl same
          | exact .inr (same ▸ mem_cons_self)
      · exact (ih member).imp_right (mem_cons_of_mem head)

end Firsts

/-- Every fitting entry has a bit of its own, and its block ends in front of the footer. -/
structure Indexed (limits : BatLimits) (offFooter : Nat) (entries : List Nat) : Prop where
  sectors : ∀ entry ∈ entries, limits.fits entry = true → limits.cbBlock / VHD_SECTOR_SIZE ≠ 0
  inside : ∀ entry ∈ entries, limits.fits entry = true →
    limits.bit entry < limits.cBits ∧ limits.bit entry < 2 ^ 31
  front : ∀ entry ∈ entries, limits.fits entry = true →
    entry * VHD_SECTOR_SIZE + limits.cbBlock ≤ offFooter
  own : ∀ entry ∈ entries, ∀ other ∈ entries, limits.fits entry = true →
    limits.fits other = true → limits.bit entry = limits.bit other → entry = other

/-- The checks of one entry, and of the rest of the table. -/
theorem checkEntries_eq {limits : BatLimits} {offFooter : Nat} {table : List Nat}
    (indexed : Indexed limits offFooter table) {entries seen : List Nat}
    (within : ∀ entry ∈ entries, entry ∈ table)
    (before : ∀ entry ∈ seen, entry ∈ table ∧ limits.fits entry = true) (fRepairBat : Bool) :
    ∃ blockBitmap, checkEntries limits ⟨seen.map limits.bit, offFooter, fRepairBat⟩ entries =
      .ok (firsts limits.fits seen entries, ⟨blockBitmap, offFooter,
          fRepairBat || decide (firsts limits.fits seen entries ≠ entries)⟩) := by
  induction entries generalizing seen fRepairBat with
  | nil => exact ⟨seen.map limits.bit, by simp [checkEntries, firsts]⟩
  | cons entry rest ih =>
    have member := within entry mem_cons_self
    have others : ∀ entry ∈ rest, entry ∈ table := fun other inRest =>
      within other (mem_cons_of_mem entry inRest)
    by_cases fits : limits.fits entry = true
    · have bounds := indexed.inside entry member fits
      have front := indexed.front entry member fits
      obtain ⟨live, inFile⟩ := Bool.and_eq_true_iff.mp fits
      have live : entry ≠ cleared := bne_iff_ne.mp live
      have inFile := of_decide_eq_true inFile
      have bit : limits.bit entry ∈ seen.map limits.bit ↔ entry ∈ seen := by
        constructor
        · intro set
          obtain ⟨other, inSeen, same⟩ := mem_map.mp set
          have equal := indexed.own other (before other inSeen).1 entry member
            (before other inSeen).2 fits same
          exact equal ▸ inSeen
        · exact mem_map_of_mem
      have checked : checkEntry limits ⟨seen.map limits.bit, offFooter, fRepairBat⟩ entry =
          if entry ∈ seen then .ok (cleared, ⟨seen.map limits.bit, offFooter, true⟩)
          else .ok (entry, ⟨(entry :: seen).map limits.bit, offFooter, fRepairBat⟩) := by
        simp only [checkEntry, bit]
        rw [if_neg live, if_neg (Nat.not_lt.mpr inFile),
          if_neg (indexed.sectors entry member fits),
          if_neg (not_or.mpr ⟨Nat.not_le.mpr bounds.1, Nat.not_le.mpr bounds.2⟩),
          Nat.max_eq_left front, decide_eq_false (Nat.not_lt.mpr front), Bool.or_false]
        rfl
      by_cases again : entry ∈ seen
      · obtain ⟨blockBitmap, remaining⟩ := ih others before true
        rw [if_pos again] at checked
        refine ⟨blockBitmap, ?_⟩
        rw [checkEntries, checked]
        simp only
        rw [remaining, firsts, if_neg (by simp [again])]
        simp [Ne.symm live]
      · obtain ⟨blockBitmap, remaining⟩ := ih others
          (forall_mem_cons.mpr ⟨⟨member, fits⟩, before⟩) fRepairBat
        rw [if_neg again] at checked
        refine ⟨blockBitmap, ?_⟩
        rw [checkEntries, checked]
        simp only
        rw [remaining, firsts, if_pos ⟨fits, again⟩]
        simp
    · have skipped : ¬ (limits.fits entry = true ∧ entry ∉ seen) := fun both => fits both.1
      by_cases live : entry = cleared
      · obtain ⟨blockBitmap, remaining⟩ := ih others before fRepairBat
        refine ⟨blockBitmap, ?_⟩
        rw [checkEntries, checkEntry]
        simp only
        rw [if_pos live]
        simp only
        rw [remaining, firsts, if_neg skipped]
        simp [live]
      · obtain ⟨blockBitmap, remaining⟩ := ih others before true
        have outside : limits.cbFile < entry * VHD_SECTOR_SIZE + limits.cbBlock := by
          rw [BatLimits.fits, Bool.and_eq_true_iff, bne_iff_ne, decide_eq_true_iff] at fits
          exact Nat.not_le.mp fun inFile => fits ⟨live, inFile⟩
        refine ⟨blockBitmap, ?_⟩
        rw [checkEntries, checkEntry]
        simp only
        rw [if_neg live, if_pos outside]
        simp only
        rw [remaining, firsts, if_neg skipped]
        simp [Ne.symm live]

/-! ### The least entry -/

theorem foldl_min_le (entries : List Nat) (start : Nat) :
    entries.foldl min start ≤ start ∧ ∀ entry ∈ entries, entries.foldl min start ≤ entry := by
  induction entries generalizing start with
  | nil => exact ⟨Nat.le_refl _, fun _ member => nomatch member⟩
  | cons entry rest ih =>
    obtain ⟨start', all⟩ := ih (min start entry)
    refine ⟨le_trans start' (Nat.min_le_left _ _), forall_mem_cons.mpr ⟨?_, all⟩⟩
    exact le_trans start' (Nat.min_le_right _ _)

theorem le_foldl_min {entries : List Nat} {start bound : Nat} (first : bound ≤ start)
    (all : ∀ entry ∈ entries, bound ≤ entry) : bound ≤ entries.foldl min start := by
  induction entries generalizing start with
  | nil => exact first
  | cons entry rest ih =>
    obtain ⟨head, tail⟩ := forall_mem_cons.mp all
    exact ih (Nat.le_min.mpr ⟨first, head⟩) tail

theorem idxMinBlockOf_le {paBat : List Nat} {entry : Nat} (member : entry ∈ paBat) :
    idxMinBlockOf paBat ≤ entry := (foldl_min_le paBat cleared).2 entry member

/-- The least entry does not become smaller. -/
theorem idxMinBlockOf_firsts (passes : Nat → Bool) (paBat : List Nat) :
    idxMinBlockOf paBat ≤ idxMinBlockOf (firsts passes [] paBat) := by
  refine le_foldl_min (foldl_min_le paBat cleared).1 fun entry member => ?_
  rcases mem_of_mem_firsts member with free | member
  · exact free ▸ (foldl_min_le paBat cleared).1
  · exact idxMinBlockOf_le member

/-- Two blocks a block apart have different bits. -/
theorem bit_lt_bit {limits : BatLimits} {entry other : Nat}
    (sectors : limits.cbBlock / VHD_SECTOR_SIZE ≠ 0) (least : limits.idxMinBlock ≤ entry)
    (apart : entry + limits.cbBlock / VHD_SECTOR_SIZE ≤ other) :
    limits.bit entry < limits.bit other := by
  have positive := Nat.pos_of_ne_zero sectors
  have shifted : limits.bit entry + 1 =
      (entry - limits.idxMinBlock + limits.cbBlock / VHD_SECTOR_SIZE) /
        (limits.cbBlock / VHD_SECTOR_SIZE) := (Nat.add_div_right _ positive).symm
  rw [← Nat.succ_le_iff, Nat.succ_eq_add_one, shifted]
  refine Nat.div_le_div_right ?_
  omega

end VBox.Storage.Vhd
