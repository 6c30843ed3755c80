import Mathlib.Data.UInt
import VBox.Lib.Halving

/-!
The extent lookup of the VCI cache.

`vciCacheExtentLookup` walks the B+-tree in memory. At a node it searches the entry with
the block; where none has it, the search of an internal node starts over, and that of a
leaf ends only when the block lies in front of everything. `Reaches` says when the
function comes to an end, and `vciCacheExtentLookup_exact_iff` that it is right exactly
then.
-/

namespace VBox.Storage.Vci

open VBox.Lib List Option

/-- The blocks an entry of a node stands for. -/
structure VciBlocks where
  u64BlockOffset : UInt64
  u32Blocks : UInt32
  deriving DecidableEq, Repr

structure VciCacheExtent extends VciBlocks where
  u64BlockAddr : UInt64
  deriving DecidableEq, Repr

/-- A node in memory; the lists are the used part of `aExtents` and of `aIntNodes`, the
latter with their children. -/
inductive VciTreeNode where
  | leaf (aExtents : List VciCacheExtent)
  | int (aIntNodes : List (VciBlocks × VciTreeNode))

/-- The direction the search takes from an entry; the sum wraps around. -/
def VciBlocks.direction (offBlockOffset : UInt64) (b : VciBlocks) : Ordering :=
  if offBlockOffset < b.u64BlockOffset then .lt
  else if b.u64BlockOffset + b.u32Blocks.toUInt64 ≤ offBlockOffset then .gt
  else .eq

/-- The direction from the entry at an index. The search stays inside. -/
def directionAt (offBlockOffset : UInt64) (entries : List VciBlocks) (idxCur : Nat) : Ordering :=
  (entries[idxCur]?.map (VciBlocks.direction offBlockOffset)).getD .eq

/-- The search of a node; `idxCur` starts in the middle of the whole. -/
def searchNode (offBlockOffset : UInt64) (entries : List VciBlocks) (fuel : Nat) :
    Option (Option Nat) :=
  halve (directionAt offBlockOffset entries) fuel 0 entries.length

/-- The two loops of `vciCacheExtentLookup`; no result where they need more rounds. An
internal node whose window became empty is searched once more. -/
def lookupFrom (offBlockOffset : UInt64) : Nat → VciTreeNode → Option (Option VciCacheExtent)
  | 0, _ => none
  | fuel + 1, .int aIntNodes =>
      match searchNode offBlockOffset (aIntNodes.map Prod.fst) fuel with
      | some (some idxCur) =>
          aIntNodes[idxCur]?.bind fun pInt => lookupFrom offBlockOffset fuel pInt.2
      | some none => lookupFrom offBlockOffset fuel (.int aIntNodes)
      | none => none
  | fuel + 1, .leaf aExtents =>
      match searchNode offBlockOffset (aExtents.map VciCacheExtent.toVciBlocks) fuel with
      | some (some idxCur) => some aExtents[idxCur]?
      | some none => some none
      | none => none

/-- `vciCacheExtentLookup` without `ppNextBestFit`. -/
def vciCacheExtentLookup (fuel : Nat) (pRoot : Option VciTreeNode) (offBlockOffset : UInt64) :
    Option (Option VciCacheExtent) :=
  match pRoot with
  | none => some none
  | some pRoot => lookupFrom offBlockOffset fuel pRoot

/-! ### Trees -/

namespace VciBlocks

def Contains (offBlockOffset : UInt64) (b : VciBlocks) : Prop :=
  b.u64BlockOffset.toNat ≤ offBlockOffset.toNat ∧
    offBlockOffset.toNat < b.u64BlockOffset.toNat + b.u32Blocks.toNat

/-- All of the blocks of `a` come before those of `b`. -/
def Before (a b : VciBlocks) : Prop :=
  a.u64BlockOffset.toNat + a.u32Blocks.toNat ≤ b.u64BlockOffset.toNat

def Within (a b : VciBlocks) : Prop :=
  b.u64BlockOffset.toNat ≤ a.u64BlockOffset.toNat ∧
    a.u64BlockOffset.toNat + a.u32Blocks.toNat ≤ b.u64BlockOffset.toNat + b.u32Blocks.toNat

end VciBlocks

inductive HasExtent : VciTreeNode → VciCacheExtent → Prop where
  | leaf {aExtents e} : e ∈ aExtents → HasExtent (.leaf aExtents) e
  | int {aIntNodes pInt e} : pInt ∈ aIntNodes → HasExtent pInt.2 e → HasExtent (.int aIntNodes) e

/-- The entries of every node are sorted and disjoint, and a child has no extents outside
its entry. -/
inductive WellFormed : VciTreeNode → Prop where
  | leaf {aExtents : List VciCacheExtent} :
      (aExtents.map VciCacheExtent.toVciBlocks).Pairwise VciBlocks.Before →
      WellFormed (.leaf aExtents)
  | int {aIntNodes : List (VciBlocks × VciTreeNode)} :
      (aIntNodes.map Prod.fst).Pairwise VciBlocks.Before →
      (∀ pInt ∈ aIntNodes, ∀ e, HasExtent pInt.2 e → e.Within pInt.1) →
      (∀ pInt ∈ aIntNodes, WellFormed pInt.2) → WellFormed (.int aIntNodes)

/-- Entries with the block lead down to a leaf that has it in an extent, or has all its
extents behind it. -/
inductive Reaches (offBlockOffset : UInt64) : VciTreeNode → Prop where
  | found {aExtents e} : e ∈ aExtents → e.direction offBlockOffset = .eq →
      Reaches offBlockOffset (.leaf aExtents)
  | inFront {aExtents} : (∀ e ∈ aExtents, offBlockOffset < e.u64BlockOffset) →
      Reaches offBlockOffset (.leaf aExtents)
  | int {aIntNodes pInt} : pInt ∈ aIntNodes → pInt.1.direction offBlockOffset = .eq →
      Reaches offBlockOffset pInt.2 → Reaches offBlockOffset (.int aIntNodes)

/-- The extent with the block if there is one, and nothing if there is none. -/
def IsExact (pRoot : Option VciTreeNode) (offBlockOffset : UInt64) :
    Option VciCacheExtent → Prop
  | some e => (∃ node ∈ pRoot, HasExtent node e) ∧ e.Contains offBlockOffset
  | none => ∀ node ∈ pRoot, ∀ e, HasExtent node e → ¬ e.Contains offBlockOffset

namespace VciBlocks

variable {offBlockOffset : UInt64} {a b : VciBlocks}

/-- A search that stops at an entry has found the block; the end of the entry does not wrap. -/
theorem contains_of_direction (here : b.direction offBlockOffset = .eq) :
    b.Contains offBlockOffset := by
  unfold direction at here
  split at here
  · cases here
  · rename_i notLeft
    split at here
    · cases here
    · rename_i notRight
      have blocks := b.u32Blocks.toNat_lt
      have start := b.u64BlockOffset.toNat_lt
      simp only [UInt64.lt_iff_toNat_lt, UInt64.le_iff_toNat_le, UInt64.toNat_add,
        UInt32.toNat_toUInt64] at notLeft notRight
      exact ⟨by omega, by omega⟩

theorem direction_eq_lt : b.direction offBlockOffset = .lt ↔ offBlockOffset < b.u64BlockOffset := by
  unfold direction
  split
  · simp [*]
  · split <;> simp [*]

/-- Behind an entry that does not point to the right every entry points to the left. -/
theorem Before.direction (before : a.Before b) (notRight : a.direction offBlockOffset ≠ .gt) :
    b.direction offBlockOffset = .lt := by
  unfold Before at before
  rw [direction_eq_lt, UInt64.lt_iff_toNat_lt]
  rcases pointing : a.direction offBlockOffset
  · rw [direction_eq_lt, UInt64.lt_iff_toNat_lt] at pointing
    omega
  · have here := (contains_of_direction pointing).2
    omega
  · exact absurd pointing notRight

theorem Before.not_both (before : a.Before b) (inA : a.Contains offBlockOffset)
    (inB : b.Contains offBlockOffset) : False := by
  unfold Before at before
  unfold Contains at inA inB
  omega

/-- Only one of the entries of a node has the block. -/
theorem contains_unique {entries : List VciBlocks} (sorted : entries.Pairwise Before) {i j : Nat}
    (atI : entries[i]? = some a) (atJ : entries[j]? = some b) (inA : a.Contains offBlockOffset)
    (inB : b.Contains offBlockOffset) : i = j := by
  obtain ⟨belowI, rfl⟩ := List.getElem?_eq_some_iff.mp atI
  obtain ⟨belowJ, rfl⟩ := List.getElem?_eq_some_iff.mp atJ
  rcases Nat.lt_trichotomy i j with less | same | more
  · have before := pairwise_iff_getElem.mp sorted i j belowI belowJ less
    exact (before.not_both inA inB).elim
  · exact same
  · have before := pairwise_iff_getElem.mp sorted j i belowJ belowI more
    exact (before.not_both inB inA).elim

end VciBlocks

variable {fuel fuel' : Nat}

section Search

variable {offBlockOffset : UInt64} {entries : List VciBlocks}

theorem directionAt_eq {i : Nat} {b : VciBlocks} (at_i : entries[i]? = some b) :
    directionAt offBlockOffset entries i = b.direction offBlockOffset := by
  simp [directionAt, at_i]

/-- What becomes of the search of a sorted node. -/
inductive Outcome (offBlockOffset : UInt64) (entries : List VciBlocks) : Prop where
  | found (idxCur : Nat) (b : VciBlocks) : entries[idxCur]? = some b →
      b.direction offBlockOffset = .eq →
      searchNode offBlockOffset entries (entries.length + 1) = some (some idxCur) →
      Outcome offBlockOffset entries
  | inFront : (∀ b ∈ entries, b.direction offBlockOffset = .lt) →
      searchNode offBlockOffset entries (entries.length + 1) = some none →
      Outcome offBlockOffset entries
  | endless : (∃ b ∈ entries, b.direction offBlockOffset = .gt) →
      (∀ b ∈ entries, b.direction offBlockOffset ≠ .eq) →
      (∀ fuel, searchNode offBlockOffset entries fuel = none) → Outcome offBlockOffset entries

theorem outcome (offBlockOffset : UInt64) (sorted : entries.Pairwise VciBlocks.Before) :
    Outcome offBlockOffset entries := by
  -- the first entry that does not point to the right
  obtain ⟨r, within, before, at_r⟩ : ∃ r ≤ entries.length,
      (∀ i < r, directionAt offBlockOffset entries i = .gt) ∧
      ∀ below : r < entries.length, entries[r].direction offBlockOffset ≠ .gt := by
    refine ⟨entries.findIdx fun b => b.direction offBlockOffset ≠ .gt, findIdx_le_length,
      fun i below => ?_, fun below => by simpa using findIdx_getElem (w := below)⟩
    have inside := below.trans_le findIdx_le_length
    rw [directionAt_eq (getElem?_eq_getElem inside)]
    simpa using not_of_lt_findIdx below
  have behind : ∀ i, r < i → i < entries.length → directionAt offBlockOffset entries i = .lt := by
    intro i later below
    rw [directionAt_eq (getElem?_eq_getElem below)]
    exact (pairwise_iff_getElem.mp sorted r i (later.trans below) below later).direction
      (at_r (later.trans below))
  have pointing : ∀ b ∈ entries, ∃ i < entries.length,
      b.direction offBlockOffset = directionAt offBlockOffset entries i := by
    intro b member
    obtain ⟨i, below, rfl⟩ := mem_iff_getElem.mp member
    exact ⟨i, below, (directionAt_eq (getElem?_eq_getElem below)).symm⟩
  by_cases found : ∃ below : r < entries.length, entries[r].direction offBlockOffset = .eq
  · obtain ⟨below, here⟩ := found
    have probed : directionAt offBlockOffset entries r = .eq := by
      rw [directionAt_eq (getElem?_eq_getElem below), here]
    exact .found r _ (getElem?_eq_getElem below) here
      (halve_finds before probed behind r.zero_le below le_rfl (by omega))
  have from_r : ∀ i, r ≤ i → i < entries.length → directionAt offBlockOffset entries i = .lt := by
    intro i later below
    rcases later.eq_or_lt with rfl | later
    · rw [directionAt_eq (getElem?_eq_getElem below)]
      rcases here : entries[r].direction offBlockOffset
      · rfl
      · exact absurd ⟨below, here⟩ found
      · exact absurd here (at_r below)
    · exact behind i later below
  rcases r.eq_zero_or_pos with rfl | positive
  · refine .inFront (fun b member => ?_)
      (halve_empty (fun i below => from_r i i.zero_le below) le_rfl (by omega))
    obtain ⟨i, below, eq⟩ := pointing b member
    rw [eq, from_r i i.zero_le below]
  · refine .endless ⟨entries[0], getElem_mem _, ?_⟩ (fun b member => ?_)
      fun fuel => halve_stuck before from_r positive within le_rfl
    · rw [← before 0 positive, directionAt_eq (getElem?_eq_getElem _)]
    · obtain ⟨i, below, eq⟩ := pointing b member
      rw [eq]
      rcases Nat.lt_or_ge i r with earlier | later
      · rw [before i earlier]
        exact nofun
      · rw [from_r i later below]
        exact nofun

/-- A result of a search is that of the outcome. -/
theorem searchNode_eq {result result' : Option Nat}
    (found : searchNode offBlockOffset entries fuel = some result)
    (found' : searchNode offBlockOffset entries fuel' = some result') : result = result' := by
  have here := halve_mono (Nat.le_max_left fuel fuel') found
  rw [halve_mono (Nat.le_max_right fuel fuel') found'] at here
  exact (some.inj here).symm

end Search

section Lookup

variable {offBlockOffset : UInt64}

variable {result : Option VciCacheExtent} {node : VciTreeNode}

/-- A result of the lookup does not change with more rounds. -/
theorem lookupFrom_mono (more : fuel ≤ fuel')
    (found : lookupFrom offBlockOffset fuel node = some result) :
    lookupFrom offBlockOffset fuel' node = some result := by
  induction fuel generalizing fuel' node with
  | zero => cases found
  | succ fuel ih =>
    obtain _ | fuel' := fuel'
    · cases more
    have more := Nat.le_of_succ_le_succ more
    cases node with
    | leaf aExtents =>
      rw [lookupFrom] at found ⊢
      rcases searched : searchNode offBlockOffset (aExtents.map VciCacheExtent.toVciBlocks) fuel
        with _ | idx
      · rw [searched] at found
        cases found
      · rw [show searchNode _ _ _ = _ from halve_mono more searched]
        rwa [searched] at found
    | int aIntNodes =>
      rw [lookupFrom] at found ⊢
      rcases searched : searchNode offBlockOffset (aIntNodes.map Prod.fst) fuel with _ | _ | idx
      · rw [searched] at found
        cases found
      · rw [searched] at found
        rw [show searchNode _ _ _ = _ from halve_mono more searched]
        exact ih more found
      · rw [searched] at found
        rw [show searchNode _ _ _ = _ from halve_mono more searched]
        obtain ⟨pInt, member, below⟩ := bind_eq_some_iff.mp found
        exact bind_eq_some_iff.mpr ⟨pInt, member, ih more below⟩

/-- A lookup that ends was led to a leaf that decides. -/
theorem Reaches.of_lookupFrom (ok : WellFormed node)
    (found : lookupFrom offBlockOffset fuel node = some result) : Reaches offBlockOffset node := by
  induction fuel generalizing node with
  | zero => cases found
  | succ fuel ih =>
    cases ok with
    | @leaf aExtents sorted =>
      rw [lookupFrom] at found
      rcases outcome offBlockOffset sorted with
        ⟨idxCur, b, at_idx, here, -⟩ | ⟨left, -⟩ | ⟨-, -, never⟩
      · obtain ⟨e, member, rfl⟩ := List.mem_map.mp (mem_of_getElem? at_idx)
        exact .found member here
      · refine .inFront fun e member => ?_
        exact VciBlocks.direction_eq_lt.mp (left _ (List.mem_map_of_mem member))
      · rw [never] at found
        cases found
    | @int aIntNodes sorted within children =>
      rw [lookupFrom] at found
      rcases outcome offBlockOffset sorted with
        ⟨idxCur, b, at_idx, here, search⟩ | ⟨left, search⟩ | ⟨-, -, never⟩
      · rcases searched : searchNode offBlockOffset (aIntNodes.map Prod.fst) fuel with _ | idx
        · rw [searched] at found
          cases found
        · cases searchNode_eq searched search
          rw [searched] at found
          obtain ⟨pInt, at_int, below⟩ := bind_eq_some_iff.mp found
          have member := mem_of_getElem? at_int
          have same : pInt.1 = b := by
            rw [getElem?_map, at_int] at at_idx
            exact some.inj at_idx
          exact .int member (same ▸ here) (ih (children pInt member) below)
      · rcases searched : searchNode offBlockOffset (aIntNodes.map Prod.fst) fuel with _ | idx
        · rw [searched] at found
          cases found
        · cases searchNode_eq searched search
          rw [searched] at found
          exact ih (.int sorted within children) found
      · rw [never] at found
        cases found

/-- What is right for the child with the block is right for the node. -/
theorem IsExact.of_child {aIntNodes : List (VciBlocks × VciTreeNode)}
    {pInt : VciBlocks × VciTreeNode} (right : IsExact (some pInt.2) offBlockOffset result)
    (sorted : (aIntNodes.map Prod.fst).Pairwise VciBlocks.Before)
    (within : ∀ pInt ∈ aIntNodes, ∀ e, HasExtent pInt.2 e → e.Within pInt.1)
    (member : pInt ∈ aIntNodes) (inside : pInt.1.Contains offBlockOffset) :
    IsExact (some (.int aIntNodes)) offBlockOffset result := by
  cases result with
  | some e =>
    obtain ⟨⟨_, ⟨⟩, has⟩, contains⟩ := right
    exact ⟨⟨_, rfl, .int member has⟩, contains⟩
  | none =>
    rintro _ ⟨⟩ e (_ | ⟨other, has⟩) contains
    rename_i pOther
    have bounds := within pOther other e has
    have insideOther : pOther.1.Contains offBlockOffset :=
      ⟨bounds.1.trans contains.1, contains.2.trans_le bounds.2⟩
    -- so it is the same child
    obtain ⟨i, at_i⟩ := mem_iff_getElem?.mp member
    obtain ⟨j, at_j⟩ := mem_iff_getElem?.mp other
    cases VciBlocks.contains_unique sorted (by rw [getElem?_map, at_i, map_some])
      (by rw [getElem?_map, at_j, map_some]) inside insideOther
    cases at_i.symm.trans at_j
    exact right _ rfl e has contains

/-- Led to a leaf that decides, the lookup ends with what it should. -/
theorem Reaches.lookupFrom (reaches : Reaches offBlockOffset node) (ok : WellFormed node) :
    ∃ fuel result, lookupFrom offBlockOffset fuel node = some result ∧
      IsExact (some node) offBlockOffset result := by
  induction reaches with
  | @found aExtents e member here =>
    obtain @⟨_, sorted⟩ := ok
    rcases outcome offBlockOffset sorted with
      ⟨idxCur, b, at_idx, inside, search⟩ | ⟨left, -⟩ | ⟨-, none, -⟩
    · rw [getElem?_map, map_eq_some_iff] at at_idx
      obtain ⟨e', at_idx, rfl⟩ := at_idx
      refine ⟨aExtents.length + 2, some e', ?_, ⟨_, rfl, .leaf (mem_of_getElem? at_idx)⟩,
        VciBlocks.contains_of_direction inside⟩
      rw [length_map] at search
      rw [Vci.lookupFrom, search]
      exact congrArg some at_idx
    · rw [left _ (List.mem_map_of_mem member)] at here
      cases here
    · exact absurd here (none _ (List.mem_map_of_mem member))
  | @inFront aExtents left =>
    obtain @⟨_, sorted⟩ := ok
    have behind : ∀ i < (aExtents.map VciCacheExtent.toVciBlocks).length,
        directionAt offBlockOffset (aExtents.map VciCacheExtent.toVciBlocks) i = .lt := by
      intro i below
      have below' : i < aExtents.length := by simpa using below
      rw [directionAt_eq (b := aExtents[i].toVciBlocks)
        (by rw [getElem?_map, getElem?_eq_getElem below', map_some])]
      exact VciBlocks.direction_eq_lt.mpr (left _ (getElem_mem _))
    refine ⟨aExtents.length + 2, none, ?_, ?_⟩
    · rw [Vci.lookupFrom, searchNode, halve_empty behind le_rfl (by simp)]
    · rintro _ ⟨⟩ e (⟨member⟩ | _) contains
      have less := UInt64.lt_iff_toNat_lt.mp (left e member)
      exact absurd contains.1 (by omega)
  | @int aIntNodes pInt member here reaches ih =>
    obtain _ | @⟨_, sorted, within, children⟩ := ok
    obtain ⟨fuel, result, below, exact_⟩ := ih (children pInt member)
    obtain ⟨j, at_j⟩ := mem_iff_getElem?.mp member
    have at_j' : (aIntNodes.map Prod.fst)[j]? = some pInt.1 := by simp [at_j]
    have inside := VciBlocks.contains_of_direction here
    rcases outcome offBlockOffset sorted with
      ⟨idxCur, b, at_idx, hereB, search⟩ | ⟨left, -⟩ | ⟨-, none, -⟩
    · cases VciBlocks.contains_unique sorted at_idx at_j'
        (VciBlocks.contains_of_direction hereB) inside
      refine ⟨max fuel (aIntNodes.length + 1) + 1, result, ?_, ?_⟩
      · have search := halve_mono (Nat.le_max_right fuel (aIntNodes.length + 1))
          (by simpa [searchNode] using search)
        rw [Vci.lookupFrom, searchNode, length_map, search]
        exact bind_eq_some_iff.mpr ⟨pInt, at_j, lookupFrom_mono (Nat.le_max_left _ _) below⟩
      · exact exact_.of_child sorted within member inside
    · rw [left _ (List.mem_map_of_mem member)] at here
      cases here
    · exact absurd here (none _ (List.mem_map_of_mem member))

/-- The lookup ends with the extent that has the block, or with none where there is none,
exactly when the entries with the block lead to a leaf that has it or lies behind it. -/
theorem vciCacheExtentLookup_exact_iff {pRoot : Option VciTreeNode}
    (ok : ∀ node ∈ pRoot, WellFormed node) (offBlockOffset : UInt64) :
    (∃ fuel result, vciCacheExtentLookup fuel pRoot offBlockOffset = some result ∧
      IsExact pRoot offBlockOffset result) ↔ ∀ node ∈ pRoot, Reaches offBlockOffset node := by
  cases pRoot with
  | none =>
    refine iff_of_true ⟨0, none, rfl, ?_⟩ ?_
    · rintro _ ⟨⟩
    · rintro _ ⟨⟩
  | some pRoot =>
    constructor
    · rintro ⟨fuel, result, found, -⟩ _ ⟨⟩
      exact .of_lookupFrom (ok pRoot rfl) found
    · intro reaches
      exact (reaches pRoot rfl).lookupFrom (ok pRoot rfl)

end Lookup

/-- A leaf in front of the block, beside one with a gap. -/
def twoLeaves : VciTreeNode :=
  .int [(⟨0, 4⟩, .leaf [⟨⟨0, 2⟩, 10⟩]), (⟨4, 8⟩, .leaf [⟨⟨6, 2⟩, 20⟩, ⟨⟨9, 3⟩, 30⟩])]

theorem twoLeaves_wellFormed : WellFormed twoLeaves := by
  refine .int (by simp [VciBlocks.Before]) ?_ ?_
  · simp only [mem_cons, not_mem_nil, or_false, forall_eq_or_imp, forall_eq]
    refine ⟨?_, ?_⟩
    · rintro e (member | _)
      simp only [mem_cons, not_mem_nil, or_false] at member
      rcases member with rfl
      exact ⟨by decide, by decide⟩
    · rintro e (member | _)
      simp only [mem_cons, not_mem_nil, or_false] at member
      rcases member with rfl | rfl <;> exact ⟨by decide, by decide⟩
  · simp only [mem_cons, not_mem_nil, or_false, forall_eq_or_imp, forall_eq]
    exact ⟨.leaf (by simp [VciBlocks.Before]), .leaf (by simp [VciBlocks.Before])⟩

example : vciCacheExtentLookup 5 (some twoLeaves) 10 = some (some ⟨⟨9, 3⟩, 30⟩) := by decide

/-- Behind the first extent of its leaf the block 8 is in none of them. -/
theorem vciCacheExtentLookup_exact_iff_twoLeaves :
    (∃ fuel result, vciCacheExtentLookup fuel (some twoLeaves) 8 = some result ∧
      IsExact (some twoLeaves) 8 result) ↔ ∀ node ∈ some twoLeaves, Reaches 8 node :=
  vciCacheExtentLookup_exact_iff (by rintro _ ⟨⟩; exact twoLeaves_wellFormed) 8

/-- There the lookup does not end. -/
theorem vciCacheExtentLookup_endless : WellFormed twoLeaves ∧
    ∀ fuel, vciCacheExtentLookup fuel (some twoLeaves) 8 = none := by
  refine ⟨twoLeaves_wellFormed, fun fuel => ?_⟩
  cases ended : vciCacheExtentLookup fuel (some twoLeaves) 8 with
  | none => rfl
  | some result =>
    obtain _ | _ | ⟨member, inside, reaches⟩ :=
      Reaches.of_lookupFrom twoLeaves_wellFormed ended
    simp only [mem_cons, not_mem_nil, or_false] at member
    rcases member with rfl | rfl
    · exact absurd inside (by decide)
    · cases reaches with
      | found member inside =>
        simp only [mem_cons, not_mem_nil, or_false] at member
        rcases member with rfl | rfl <;> exact absurd inside (by decide)
      | inFront left => exact absurd (left ⟨⟨6, 2⟩, 20⟩ (by simp)) (by decide)

end VBox.Storage.Vci
