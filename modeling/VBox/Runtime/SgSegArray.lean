import VBox.Runtime.SgStream

/-!
Segment arrays of scatter/gather buffers.

`RTSgBufSegArrayCreate` counts segments if there is no array, and fills the array otherwise. The
counting pass goes by the sizes of the segments, the filling pass takes chunks.
-/

namespace VBox.Runtime

open VBox.Lib List

/-! ### The two passes -/

/-- The loop of the counting pass, over the segments behind the current one: the entries and the
bytes. -/
def segArrayCountLoop : Nat → List (List UInt8) → Nat × Nat
  | _, [] => (0, 0)
  | cbData, seg :: segs =>
    if cbData = 0 then (0, 0)
    else
      let (cSeg, cb) := segArrayCountLoop (cbData - min seg.length cbData) segs
      (cSeg + 1, min seg.length cbData + cb)

/-- The counting pass of `RTSgBufSegArrayCreate`. -/
def segArrayCount (sg : RtSgBuf) (cbData : Nat) : Nat × Nat :=
  if sg.cbSegLeft > 0 then
    let (cSeg, cb) := segArrayCountLoop (cbData - min sg.cbSegLeft cbData)
      (sg.paSegs.drop (sg.idxSeg + 1))
    (1 + cSeg, min sg.cbSegLeft cbData + cb)
  else (0, 0)

/-- `RTSGSEG`, as the filling pass stores it. -/
structure RtSgSeg where
  pvSeg : Option SegPtr
  cbSeg : Nat
  deriving DecidableEq

/-- The filling pass of `RTSgBufSegArrayCreate`, with so many entries left in the array: the
entries stored, the bytes and the moved cursor. -/
def segArrayFill : Nat → Nat → RtSgBuf → Option (List RtSgSeg × Nat × RtSgBuf)
  | 0, _, sg => some ([], 0, sg)
  | cSegs + 1, cbData, sg =>
    if cbData = 0 then some ([], 0, sg)
    else
      match sgBufGet sg cbData with
      | none => none
      | some (pvSeg, cbThisSeg, sg) =>
        if cbThisSeg = 0 then some ([], 0, sg)
        else
          (segArrayFill cSegs (cbData - cbThisSeg) sg).map fun (segs, cb, sg) =>
            (⟨pvSeg, cbThisSeg⟩ :: segs, cbThisSeg + cb, sg)

/-! ### Agreement -/

/-- The bytes of an entry. -/
def RtSgSeg.bytes (mem : List (List UInt8)) (seg : RtSgSeg) : List UInt8 :=
  match seg.pvSeg with
  | some ptr => readMem mem ptr seg.cbSeg
  | none => []

/-- The filling pass stores as many entries and finds as many bytes as the counting pass, namely
those that are asked for and left, and the entries are these bytes of the stream. -/
def PassesAgree (sg : RtSgBuf) (cbData : Nat) : Prop :=
  ∃ segs cb sg', segArrayFill (segArrayCount sg cbData).1 cbData sg = some (segs, cb, sg') ∧
    segs.length = (segArrayCount sg cbData).1 ∧ cb = (segArrayCount sg cbData).2 ∧
    (segArrayCount sg cbData).2 = min cbData (remaining sg) ∧
    segs.flatMap (RtSgSeg.bytes sg.paSegs) = (ahead sg).take cb

/-- Each piece that a request reaches is neither empty nor larger than a chunk may be. -/
def Solid : Nat → List Nat → Prop
  | _, [] => True
  | n, p :: ps => n = 0 ∨ (0 < p ∧ p ≤ cbSegMax) ∧ Solid (n - p) ps

/-- How many pieces a request reaches. -/
def reached : Nat → List Nat → Nat
  | _, [] => 0
  | n, p :: ps => if n = 0 then 0 else reached (n - p) ps + 1

/-! ### The counting pass -/

theorem segArrayCountLoop_eq (cbData : Nat) (segs : List (List UInt8)) :
    segArrayCountLoop cbData segs =
      (reached cbData (segs.map length), min cbData (segs.map length).sum) := by
  induction segs generalizing cbData with
  | nil => simp [segArrayCountLoop, reached]
  | cons seg segs ih =>
    have left : cbData - min seg.length cbData = cbData - seg.length := by omega
    rw [segArrayCountLoop, map_cons, sum_cons, reached, left, ih]
    by_cases none : cbData = 0
    · rw [if_pos none, if_pos none, none, Nat.zero_min]
    · rw [if_neg none, if_neg none]
      refine Prod.ext rfl ?_
      dsimp only
      omega

/-- The counting pass counts the pieces that are reached, unless the current one is empty; with
nothing asked for it counts one. -/
theorem segArrayCount_eq {sg : RtSgBuf} (some : 0 < sg.cbSegLeft) (cbData : Nat) :
    segArrayCount sg cbData =
      (if cbData = 0 then 1 else reached cbData (pieces sg), min cbData (remaining sg)) := by
  have left : cbData - min sg.cbSegLeft cbData = cbData - sg.cbSegLeft := by omega
  rw [segArrayCount, if_pos some, left, segArrayCountLoop_eq, remaining_eq, pieces, reached]
  by_cases none : cbData = 0
  · subst none
    rw [if_pos rfl, Nat.zero_sub, Nat.zero_min]
    cases segs : sg.paSegs.drop (sg.idxSeg + 1) <;> simp [reached]
  · rw [if_neg none, if_neg none, later]
    refine Prod.ext (Nat.add_comm _ _) ?_
    dsimp only
    omega

/-! ### The filling pass -/

@[simp] theorem reached_zero (ps : List Nat) : reached 0 ps = 0 := by
  cases ps <;> rfl

@[simp] theorem solid_zero (ps : List Nat) : Solid 0 ps := by
  cases ps with
  | nil => trivial
  | cons p ps => exact .inl rfl

/-- The filling pass fills all entries just if all the pieces that it reaches are solid; they are
the bytes that come next. -/
theorem segArrayFill_spec {cSegs cbData : Nat} {sg : RtSgBuf} (positioned : Positioned sg)
    (count : cSegs = reached cbData (pieces sg)) :
    (Solid cbData (pieces sg) → ∃ segs cb sg', segArrayFill cSegs cbData sg = some (segs, cb, sg') ∧
        segs.length = cSegs ∧ cb = min cbData (remaining sg) ∧
        segs.flatMap (RtSgSeg.bytes sg.paSegs) = (ahead sg).take cb) ∧
      ∀ segs cb sg', segArrayFill cSegs cbData sg = some (segs, cb, sg') → segs.length = cSegs →
        Solid cbData (pieces sg) := by
  induction cSegs generalizing cbData sg with
  | zero =>
    have none : cbData = 0 := by
      by_contra some
      rw [pieces, reached, if_neg some] at count
      omega
    subst none
    refine ⟨fun _ => ⟨[], 0, sg, rfl, rfl, (Nat.zero_min _).symm, rfl⟩, fun _ _ _ _ _ => ?_⟩
    exact .inl rfl
  | succ cSegs ih =>
    have some : cbData ≠ 0 := by
      rintro rfl
      rw [pieces, reached, if_pos rfl] at count
      omega
    rw [pieces, reached, if_neg some, Nat.succ_inj] at count
    have solid : Solid cbData (pieces sg) ↔ (0 < sg.cbSegLeft ∧ sg.cbSegLeft ≤ cbSegMax) ∧
        Solid (cbData - sg.cbSegLeft) (later sg) := by
      rw [pieces, Solid]
      exact ⟨fun h => h.resolve_left some, .inr⟩
    rw [segArrayFill, if_neg some, solid]
    obtain ⟨none, got⟩ | ⟨large, got⟩ | ⟨small, ptr, sg', got, gets⟩ :=
      sgBufGet_cases positioned cbData
    · have empty : sg.cbSegLeft = 0 := by
        rw [remaining_eq] at none
        omega
      rw [got]
      refine ⟨fun h => by omega, fun segs cb sg' filled length => ?_⟩
      cases filled
      cases length
    · rw [got]
      exact ⟨fun h => by omega, fun segs cb sg' filled => by cases filled⟩
    · rw [got]
      dsimp only
      by_cases empty : sg.cbSegLeft = 0
      · rw [empty, Nat.min_zero, if_pos rfl]
        refine ⟨fun h => by omega, fun segs cb sg' filled length => ?_⟩
        cases filled
        cases length
      set n := min cbData sg.cbSegLeft with hn
      rw [if_neg (by omega)]
      have entry : RtSgSeg.bytes sg.paSegs ⟨ptr, n⟩ = (ahead sg).take n := gets.readMem
      have rest := gets.rest
      by_cases last : sg.cbSegLeft ≤ cbData ∧ later sg = []
      · rw [last.2] at count ⊢
        obtain rfl : cSegs = 0 := count
        have all : remaining sg = sg.cbSegLeft := by rw [remaining_eq, last.2, sum_nil]; rfl
        refine ⟨fun _ => ⟨_, n, sg', rfl, rfl, by omega, ?_⟩, fun _ _ _ _ _ => ?_⟩
        · rw [flatMap_singleton, entry]
        · exact ⟨⟨by omega, small⟩, trivial⟩
      -- The pieces behind the chunk are those that the counting pass goes on with.
      have next : reached (cbData - n) (pieces sg') = reached (cbData - sg.cbSegLeft) (later sg) ∧
          (Solid (cbData - n) (pieces sg') ↔ Solid (cbData - sg.cbSegLeft) (later sg)) := by
        obtain ⟨part, whole⟩ := sgBufGet_pieces got
        by_cases inside : cbData < sg.cbSegLeft
        · rw [show cbData - n = 0 by omega, show cbData - sg.cbSegLeft = 0 by omega]
          exact ⟨by rw [reached_zero, reached_zero], iff_of_true (solid_zero _) (solid_zero _)⟩
        · have more : later sg ≠ [] := fun h => last ⟨by omega, h⟩
          rw [whole (by omega) more, show cbData - n = cbData - sg.cbSegLeft by omega]
          exact ⟨rfl, Iff.rfl⟩
      obtain ⟨fills, refuses⟩ := ih gets.positioned (count.trans next.1.symm)
      constructor
      · rintro ⟨-, tail⟩
        obtain ⟨segs, cb, sg'', filled, length, bytes, stream⟩ := fills (next.2.mpr tail)
        rw [filled]
        refine ⟨_, n + cb, sg'', rfl, by rw [length_cons, length], by omega, ?_⟩
        rw [gets.segs] at stream
        rw [flatMap_cons, entry, stream, gets.ahead positioned, ← take_add]
      · intro segs cb sg'' filled length
        cases tail : segArrayFill cSegs (cbData - n) sg' with
        | none =>
          rw [tail] at filled
          cases filled
        | some result =>
          obtain ⟨segs', cb', sg3⟩ := result
          rw [tail] at filled
          cases filled
          exact ⟨⟨by omega, small⟩, next.2.mp (refuses _ _ _ tail (by simpa using length))⟩

/-! ### When the passes agree -/

/-- The passes agree just if there is nothing to be had at an empty piece, or something is asked
for at a piece that is not empty and all pieces that are reached are solid. -/
theorem passesAgree_iff {sg : RtSgBuf} (positioned : Positioned sg) (cbData : Nat) :
    PassesAgree sg cbData ↔
      if sg.cbSegLeft = 0 then cbData = 0 ∨ remaining sg = 0
      else cbData ≠ 0 ∧ Solid cbData (pieces sg) := by
  by_cases empty : sg.cbSegLeft = 0
  · have counted : segArrayCount sg cbData = (0, 0) := by
      rw [segArrayCount, if_neg (by omega)]
    rw [PassesAgree, counted, if_pos empty]
    constructor
    · rintro ⟨segs, cb, sg', filled, length, bytes, amount, stream⟩
      omega
    · intro nothing
      exact ⟨[], 0, sg, rfl, rfl, rfl, by omega, rfl⟩
  have counted := segArrayCount_eq (Nat.pos_of_ne_zero empty) cbData
  rw [PassesAgree, counted, if_neg empty]
  dsimp only
  by_cases none : cbData = 0
  · subst none
    refine iff_of_false ?_ fun h => h.1 rfl
    rintro ⟨segs, cb, sg', filled, length, -⟩
    rw [if_pos rfl, segArrayFill, if_pos rfl] at filled
    cases filled
    cases length
  rw [if_neg none]
  obtain ⟨fills, refuses⟩ := segArrayFill_spec positioned (rfl : _ = reached cbData (pieces sg))
  constructor
  · rintro ⟨segs, cb, sg', filled, length, -⟩
    exact ⟨none, refuses segs cb sg' filled length⟩
  · rintro ⟨-, solid⟩
    obtain ⟨segs, cb, sg', filled, length, bytes, stream⟩ := fills solid
    exact ⟨segs, cb, sg', filled, length, bytes, rfl, stream⟩

theorem passesAgree_one : PassesAgree (rtSgBufInit [[7]]) 1 :=
  (passesAgree_iff (.inr ⟨[7], rfl, by decide, rfl⟩) 1).mpr
    ⟨by decide, .inr ⟨by decide, trivial⟩⟩

/-- Nothing at all is counted as one segment. -/
theorem not_passesAgree_nothing : ¬ PassesAgree (rtSgBufInit [[7]]) 0 := by
  rintro ⟨segs, cb, sg', filled, length, -⟩
  cases filled
  cases length

end VBox.Runtime
