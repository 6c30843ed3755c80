import VBox.Runtime.SgStream

/-!
Comparison of scatter/gather buffers.

The loops of `RTSgBufCmp` and `RTSgBufCmpEx` leave at a test of `cbCmp` where the other transfer
functions test the size of the chunk, so they only end at a difference or with all that was asked
for.
-/

namespace VBox.Runtime

open List

/-! ### The loop -/

/-- `memcmp` of two chunks of one size: the difference of the first bytes that differ. -/
def memcmp : List UInt8 → List UInt8 → Int
  | a :: as, b :: bs => if a = b then memcmp as bs else (a.toNat : Int) - b.toNat
  | _, _ => 0

/-- The search for the offset: the number of bytes before the first that differ. -/
def agreeing : List UInt8 → List UInt8 → Nat
  | a :: as, b :: bs => if a = b then agreeing as bs + 1 else 0
  | _, _ => 0

/-- The chunk behind a pointer that may be null. -/
def readChunk (mem : List (List UInt8)) (ptr : Option SegPtr) (n : Nat) : List UInt8 :=
  match ptr with
  | some ptr => readMem mem ptr n
  | none => []

/-- How the loop ends: at an assertion, or with the value, the offset that is stored and the moved
cursors. -/
inductive CmpEnd where
  | assertion
  | done (rc : Int) (cbOff : Option Nat) (sg1 sg2 : RtSgBuf)
  deriving DecidableEq

/-- The loop of `RTSgBufCmp` and `RTSgBufCmpEx`; `none` if it goes on after that many rounds. -/
def cmpLoop (cbCmp : Nat) : Nat → Nat → Nat → RtSgBuf → RtSgBuf → Option CmpEnd
  | 0, _, _, _, _ => none
  | rounds + 1, cbLeft, cbOff, sg1, sg2 =>
    if cbLeft = 0 then some (.done 0 none sg1 sg2)
    else
      let cbThisCmp := min (min sg1.cbSegLeft cbLeft) sg2.cbSegLeft
      -- the request is tested here, not the chunk
      if cbCmp = 0 then some (.done 0 none sg1 sg2)
      else
        match sgBufGet sg1 cbThisCmp with
        | none => some .assertion
        | some (pbBuf1, cbTmp, sg1') =>
          match sgBufGet sg2 cbTmp with
          | none => some .assertion
          | some (pbBuf2, _, sg2') =>
            let buf1 := readChunk sg1.paSegs pbBuf1 cbThisCmp
            let buf2 := readChunk sg2.paSegs pbBuf2 cbThisCmp
            if memcmp buf1 buf2 ≠ 0 then
              some (.done (memcmp buf1 buf2) (some (cbOff + agreeing buf1 buf2)) sg1' sg2')
            else cmpLoop cbCmp rounds (cbLeft - cbThisCmp) (cbOff + cbThisCmp) sg1' sg2'

/-- `RTSgBufCmp`, watched for so many rounds; the inner `none` is a failed assertion. -/
def rtSgBufCmp (rounds : Nat) (sg1 sg2 : RtSgBuf) (cbCmp : Nat) : Option (Option Int) :=
  (cmpLoop cbCmp rounds cbCmp 0 sg1 sg2).map fun
    | .assertion => none
    | .done rc _ _ _ => some rc

/-- `RTSgBufCmpEx`: the value, `*pcbOff` and the two buffers. -/
def rtSgBufCmpEx (rounds : Nat) (sg1 sg2 : RtSgBuf) (cbCmp : Nat) (pcbOff : Option Nat)
    (fAdvance : Bool) : Option (Option (Int × Option Nat × RtSgBuf × RtSgBuf)) :=
  (cmpLoop cbCmp rounds cbCmp 0 sg1 sg2).map fun
    | .assertion => none
    | .done rc cbOff sg1' sg2' =>
      some (rc, pcbOff.map cbOff.getD, if fAdvance then (sg1', sg2') else (sg1, sg2))

/-! ### Exactness -/

/-- The first place where two byte strings differ, and the bytes there. -/
structure FirstDiff (a b : List UInt8) (i : Nat) (x y : UInt8) : Prop where
  same : a.take i = b.take i
  left : a[i]? = some x
  right : b[i]? = some y
  differ : x ≠ y

/-- A comparison of two byte strings gave this value and stored this offset. -/
def Compares (a b : List UInt8) (rc : Int) (off : Option Nat) : Prop :=
  (rc = 0 ↔ a = b) ∧ (a = b → off = none) ∧
    (a ≠ b → ∃ i x y, FirstDiff a b i x y ∧ rc.sign = ((x.toNat : Int) - y.toNat).sign ∧
      off = some i)

/-- Both functions end, and compare the bytes that are asked for and left in both buffers. -/
def CmpExact (sg1 sg2 : RtSgBuf) (cbCmp : Nat) : Prop :=
  let cb := min cbCmp (min (remaining sg1) (remaining sg2))
  (∃ rounds rc off, rtSgBufCmp rounds sg1 sg2 cbCmp = some (some rc) ∧
    Compares ((ahead sg1).take cb) ((ahead sg2).take cb) rc off) ∧
  ∀ pcbOff fAdvance, ∃ rounds rc off sg1' sg2',
    rtSgBufCmpEx rounds sg1 sg2 cbCmp pcbOff fAdvance =
      some (some (rc, pcbOff.map off.getD, sg1', sg2')) ∧
    Compares ((ahead sg1).take cb) ((ahead sg2).take cb) rc off ∧
    (fAdvance = false → sg1' = sg1 ∧ sg2' = sg2)

/-- Each piece that a request reaches is at most as large as a chunk may be. -/
def Small : Nat → List Nat → Prop
  | _, [] => True
  | n, p :: ps => n = 0 ∨ p ≤ cbSegMax ∧ Small (n - p) ps

/-- The first `n` bytes decide the comparison: they end with the first difference, or are all
that was asked for. -/
def Decides (n cb : Nat) (a b : List UInt8) : Prop :=
  (n = cb ∧ cb ≤ a.length ∧ cb ≤ b.length ∧ a.take cb = b.take cb) ∨
    ∃ i x y, n = i + 1 ∧ i < cb ∧ FirstDiff a b i x y

/-! ### Byte strings -/

section Bytes

variable {a b : List UInt8} {c cb i n : Nat} {x y : UInt8}

theorem memcmp_cases (size : a.length = b.length) : (memcmp a b = 0 ∧ a = b) ∨
      ∃ x y, FirstDiff a b (agreeing a b) x y ∧ memcmp a b = (x.toNat : Int) - y.toNat := by
  induction a generalizing b with
  | nil => exact .inl ⟨by rw [memcmp]; simp, (length_eq_zero_iff.mp size.symm).symm⟩
  | cons x as ih =>
    cases b with
    | nil => cases size
    | cons y bs =>
      rw [memcmp, agreeing]
      by_cases same : x = y
      · rw [if_pos same, if_pos same, same]
        obtain ⟨zero, rfl⟩ | ⟨x', y', diff, value⟩ := ih (Nat.succ_inj.mp size)
        · exact .inl ⟨zero, rfl⟩
        · refine .inr ⟨x', y', ⟨?_, diff.left, diff.right, diff.differ⟩, value⟩
          rw [take_succ_cons, take_succ_cons, diff.same]
      · rw [if_neg same, if_neg same]
        exact .inr ⟨x, y, ⟨rfl, rfl, rfl, same⟩, rfl⟩

theorem FirstDiff.lt_left (diff : FirstDiff a b i x y) : i < a.length :=
  (List.getElem?_eq_some_iff.mp diff.left).1

theorem FirstDiff.lt_right (diff : FirstDiff a b i x y) : i < b.length :=
  (List.getElem?_eq_some_iff.mp diff.right).1

theorem FirstDiff.sub_ne_zero (diff : FirstDiff a b i x y) : (x.toNat : Int) - y.toNat ≠ 0 := by
  intro zero
  exact diff.differ (UInt8.toNat_inj.mp (by omega))

/-- Bytes that agree are no difference. -/
theorem FirstDiff.le (diff : FirstDiff a b i x y) (same : a.take c = b.take c) : c ≤ i := by
  by_contra before
  have at_i := congrArg (fun l => l[i]?) same
  rw [getElem?_take_of_lt (by omega), getElem?_take_of_lt (by omega), diff.left,
    diff.right] at at_i
  exact diff.differ (Option.some.inj at_i)

theorem firstDiff_drop (same : a.take c = b.take c) :
    FirstDiff (a.drop c) (b.drop c) i x y ↔ FirstDiff a b (c + i) x y := by
  have taken : (a.drop c).take i = (b.drop c).take i ↔ a.take (c + i) = b.take (c + i) := by
    rw [take_add, take_add, same, append_right_inj]
  constructor
  · rintro ⟨before, left, right, differ⟩
    rw [getElem?_drop] at left right
    exact ⟨taken.mp before, left, right, differ⟩
  · rintro ⟨before, left, right, differ⟩
    rw [← getElem?_drop] at left right
    exact ⟨taken.mpr before, left, right, differ⟩

/-- A difference is one of all longer beginnings. -/
theorem firstDiff_take {m : Nat} (inside : i < m) :
    FirstDiff (a.take m) (b.take m) i x y ↔ FirstDiff a b i x y := by
  have begin (l : List UInt8) : (l.take m).take i = l.take i := by
    rw [take_take, Nat.min_eq_left (by omega)]
  constructor
  · rintro ⟨same, left, right, differ⟩
    rw [begin, begin] at same
    rw [getElem?_take_of_lt inside] at left right
    exact ⟨same, left, right, differ⟩
  · rintro ⟨same, left, right, differ⟩
    refine ⟨by rw [begin, begin, same], ?_, ?_, differ⟩ <;>
      rwa [getElem?_take_of_lt inside]

theorem Decides.pos (decides : Decides n cb a b) (asked : 0 < cb) : 0 < n := by
  rcases decides with ⟨rfl, -⟩ | ⟨i, x, y, rfl, -⟩ <;> omega

theorem Decides.le (decides : Decides n cb a b) : n ≤ cb ∧ n ≤ a.length ∧ n ≤ b.length := by
  rcases decides with ⟨rfl, left, right, -⟩ | ⟨i, x, y, rfl, inside, diff⟩
  · exact ⟨Nat.le_refl _, left, right⟩
  · exact ⟨inside, diff.lt_left, diff.lt_right⟩

/-- A chunk that agrees decides nothing. -/
theorem decides_drop (same : a.take c = b.take c) (asked : c ≤ cb) (left : c ≤ a.length)
    (right : c ≤ b.length) :
    Decides n cb a b ↔ c ≤ n ∧ Decides (n - c) (cb - c) (a.drop c) (b.drop c) := by
  have rest : (a.drop c).take (cb - c) = (b.drop c).take (cb - c) ↔ a.take cb = b.take cb := by
    conv_rhs => rw [show cb = c + (cb - c) by omega]
    rw [take_add, take_add, same, append_right_inj]
  rw [Decides, Decides, rest, length_drop, length_drop]
  constructor
  · rintro (⟨rfl, inLeft, inRight, agree⟩ | ⟨i, x, y, rfl, inside, diff⟩)
    · exact ⟨asked, .inl ⟨rfl, by omega, by omega, agree⟩⟩
    · have behind := diff.le same
      refine ⟨by omega, .inr ⟨i - c, x, y, by omega, by omega, ?_⟩⟩
      rwa [firstDiff_drop same, Nat.add_sub_cancel' behind]
  · rintro ⟨reached, ⟨whole, inLeft, inRight, agree⟩ | ⟨i, x, y, whole, inside, diff⟩⟩
    · exact .inl ⟨by omega, by omega, by omega, agree⟩
    · exact .inr ⟨c + i, x, y, by omega, by omega, (firstDiff_drop same).mp diff⟩

end Bytes

/-! ### One chunk -/

section Chunk

variable {sg sg' : RtSgBuf} {n m : Nat}

@[simp] theorem small_zero (ps : List Nat) : Small 0 ps := by
  cases ps with
  | nil => trivial
  | cons p ps => exact .inl rfl

theorem small_of_sum_eq_zero {ps : List Nat} (empty : ps.sum = 0) (n : Nat) : Small n ps := by
  induction ps generalizing n with
  | nil => trivial
  | cons p ps ih =>
    rw [sum_cons, Nat.add_eq_zero_iff] at empty
    exact .inr ⟨empty.1 ▸ Nat.zero_le _, ih empty.2 _⟩

/-- What the cursor has before it: the bytes, and the segments it has to leave. -/
def work (sg : RtSgBuf) : Nat := remaining sg + (sg.paSegs.length - sg.idxSeg)

/-- A chunk of `n` bytes taken. -/
structure Takes (sg : RtSgBuf) (n : Nat) (bytes : List UInt8) (sg' : RtSgBuf) : Prop where
  positioned : Positioned sg'
  bytes_eq : bytes = (ahead sg).take n
  ahead_eq : ahead sg' = (ahead sg).drop n
  small : ∀ m, 0 < m → (Small m (pieces sg) ↔ Small (m - n) (pieces sg'))
  work_le : work sg' ≤ work sg
  work_lt : 0 < n ∨ sg.cbSegLeft = 0 ∧ 0 < remaining sg → work sg' < work sg

/-- The segment of the moved cursor. -/
theorem sgBufGet_idxSeg {ptr : SegPtr} {cb : Nat} (got : sgBufGet sg cb = some (some ptr, n, sg')) :
    sg'.paSegs = sg.paSegs ∧ sg.idxSeg ≤ sg'.idxSeg ∧
      (sg.cbSegLeft ≤ cb → sg'.idxSeg = sg.idxSeg + 1) := by
  rw [sgBufGet] at got
  split at got
  · cases got
  split at got
  · cases got
  dsimp only at got
  split at got
  · cases next : sg.paSegs[sg.idxSeg + 1]? with
    | none =>
      rw [next] at got
      cases got
      exact ⟨rfl, Nat.le_succ _, fun _ => rfl⟩
    | some seg =>
      rw [next] at got
      cases got
      exact ⟨rfl, Nat.le_succ _, fun _ => rfl⟩
  · cases got
    exact ⟨rfl, Nat.le_refl _, fun all => by omega⟩

/-- The pieces behind a chunk are small just if those before it are. -/
theorem small_pieces {ptr : SegPtr}
    (got : sgBufGet sg n = some (some ptr, n, sg')) (gets : Gets sg ptr n sg')
    (fits : n ≤ sg.cbSegLeft) (small : sg.cbSegLeft ≤ cbSegMax) (asked : 0 < m) :
    Small m (pieces sg) ↔ Small (m - n) (pieces sg') := by
  have here : Small m (pieces sg) ↔ Small (m - sg.cbSegLeft) (later sg) := by
    rw [pieces, Small]
    exact ⟨fun h => (h.resolve_left (by omega)).2, fun h => .inr ⟨small, h⟩⟩
  obtain ⟨part, whole⟩ := sgBufGet_pieces got
  rw [here]
  by_cases inside : n < sg.cbSegLeft
  · rw [part inside, Small, show m - n - (sg.cbSegLeft - n) = m - sg.cbSegLeft by omega]
    constructor
    · exact fun h => .inr ⟨by omega, h⟩
    · rintro (none | ⟨-, h⟩)
      · rw [show m - sg.cbSegLeft = 0 by omega]
        exact small_zero _
      · exact h
  · by_cases last : later sg = []
    · have rest := gets.rest
      rw [remaining_eq sg, last, sum_nil] at rest
      rw [last]
      exact iff_of_true trivial (small_of_sum_eq_zero (by rw [← remaining]; omega) _)
    · rw [whole (by omega) last, show m - n = m - sg.cbSegLeft by omega]

/-- A chunk that fits into the current piece is taken, unless the piece is too large. -/
theorem sgBufGet_takes (positioned : Positioned sg) (fits : n ≤ sg.cbSegLeft) :
    (cbSegMax < sg.cbSegLeft ∧ sgBufGet sg n = none) ∨
      (sg.cbSegLeft ≤ cbSegMax ∧ ∃ ptr sg', sgBufGet sg n = some (ptr, n, sg') ∧
        Takes sg n (readChunk sg.paSegs ptr n) sg') := by
  obtain ⟨nothing, got⟩ | refused | ⟨small, ptr, sg', got, gets⟩ := sgBufGet_cases positioned n
  · have total := remaining_eq sg
    obtain rfl : n = 0 := by omega
    refine .inr ⟨by omega, none, sg, got, ?_⟩
    exact { positioned, bytes_eq := rfl, ahead_eq := rfl, small := fun m _ => Iff.rfl,
            work_le := Nat.le_refl _, work_lt := fun h => by omega }
  · exact .inl refused
  · rw [Nat.min_eq_left fits] at got gets
    obtain ⟨segs, forward, onward⟩ := sgBufGet_idxSeg got
    have rest := gets.rest
    have inside (some : 0 < remaining sg) : sg.idxSeg < sg.paSegs.length := by
      obtain ⟨atEnd, empty⟩ | ⟨seg, found, -⟩ := positioned
      · rw [remaining_eq, empty, later_of_none (List.getElem?_eq_none_iff.mpr (by omega))] at some
        exact absurd some (Nat.lt_irrefl 0)
      · exact (List.getElem?_eq_some_iff.mp found).1
    refine .inr ⟨small, some ptr, sg', got, ?_⟩
    exact {
      positioned := gets.positioned
      bytes_eq := gets.readMem
      ahead_eq := gets.ahead positioned
      small := fun m asked => small_pieces got gets fits small asked
      work_le := by
        rw [work, work, segs]
        omega
      work_lt := by
        rw [work, work, segs]
        rintro (some | ⟨empty, some⟩)
        · omega
        · have next := onward (by omega)
          have := inside some
          omega }

end Chunk

/-! ### When the comparison is exact -/

/-- The bytes that decide the comparison are there, and the pieces up to the last of them are
small. -/
def CmpClear (sg1 sg2 : RtSgBuf) (cbCmp : Nat) : Prop :=
  ∃ n, Decides n cbCmp (ahead sg1) (ahead sg2) ∧ Small n (pieces sg1) ∧ Small n (pieces sg2)

/-- What a finished loop says about the bytes. -/
def Verdict (cb : Nat) (a b : List UInt8) (rc : Int) (off : Option Nat) : Prop :=
  (cb ≤ a.length ∧ cb ≤ b.length ∧ a.take cb = b.take cb ∧ rc = 0 ∧ off = none) ∨
    ∃ i x y, i < cb ∧ FirstDiff a b i x y ∧ rc = (x.toNat : Int) - y.toNat ∧ off = some i

section Verdict

variable {a b : List UInt8} {c cb : Nat} {rc : Int} {off : Option Nat}

theorem Verdict.drop (same : a.take c = b.take c) (asked : c ≤ cb) (left : c ≤ a.length)
    (right : c ≤ b.length) (verdict : Verdict (cb - c) (a.drop c) (b.drop c) rc off) :
    Verdict cb a b rc (off.map (c + ·)) := by
  obtain ⟨inLeft, inRight, agree, zero, none⟩ | ⟨i, x, y, inside, diff, value, some⟩ := verdict
  · rw [length_drop] at inLeft inRight
    refine .inl ⟨by omega, by omega, ?_, zero, by rw [none]; rfl⟩
    rw [show cb = c + (cb - c) by omega, take_add, take_add, same, agree]
  · exact .inr ⟨c + i, x, y, by omega, (firstDiff_drop same).mp diff, value, by rw [some]; rfl⟩

/-- The bytes that are asked for and there compare as the verdict says. -/
theorem Verdict.compares (verdict : Verdict cb a b rc off) :
    Compares (a.take (min cb (min a.length b.length))) (b.take (min cb (min a.length b.length)))
      rc off := by
  obtain ⟨left, right, agree, rfl, rfl⟩ | ⟨i, x, y, inside, diff, rfl, rfl⟩ := verdict
  · rw [Nat.min_eq_left (by omega), agree]
    exact ⟨iff_of_true rfl rfl, fun _ => rfl, fun differ => absurd rfl differ⟩
  · have inLeft := diff.lt_left
    have inRight := diff.lt_right
    have taken := (firstDiff_take (m := min cb (min a.length b.length)) (by omega)).mpr diff
    have differ : a.take (min cb (min a.length b.length)) ≠
        b.take (min cb (min a.length b.length)) := by
      intro agree
      have before := taken.le (c := i + 1) (by rw [agree])
      omega
    exact ⟨iff_of_false diff.sub_ne_zero differ, fun agree => absurd agree differ,
      fun _ => ⟨i, x, y, taken, rfl, rfl⟩⟩

end Verdict

section Loop

variable {sg1 sg2 : RtSgBuf} {cbCmp cbLeft cbOff : Nat}

/-- One round with something left to compare. -/
theorem cmpLoop_round (pos1 : Positioned sg1) (pos2 : Positioned sg2) (asked : cbLeft ≠ 0)
    (within : cbLeft ≤ cbCmp) : (¬ CmpClear sg1 sg2 cbLeft ∧
      ∀ rounds, cmpLoop cbCmp (rounds + 1) cbLeft cbOff sg1 sg2 = some .assertion) ∨
    (∃ rc off sg1' sg2', CmpClear sg1 sg2 cbLeft ∧
      Verdict cbLeft (ahead sg1) (ahead sg2) rc (some off) ∧
      ∀ rounds, cmpLoop cbCmp (rounds + 1) cbLeft cbOff sg1 sg2 =
        some (.done rc (some (cbOff + off)) sg1' sg2')) ∨
    ∃ c bytes1 bytes2 sg1' sg2', Takes sg1 c bytes1 sg1' ∧ Takes sg2 c bytes2 sg2' ∧
      c = min (min sg1.cbSegLeft cbLeft) sg2.cbSegLeft ∧ (ahead sg1).take c = (ahead sg2).take c ∧
      (CmpClear sg1 sg2 cbLeft ↔ CmpClear sg1' sg2' (cbLeft - c)) ∧
      ∀ rounds, cmpLoop cbCmp (rounds + 1) cbLeft cbOff sg1 sg2 =
        cmpLoop cbCmp rounds (cbLeft - c) (cbOff + c) sg1' sg2' := by
  set c := min (min sg1.cbSegLeft cbLeft) sg2.cbSegLeft with hc
  have unfolded (rounds : Nat) := cmpLoop.eq_2 cbCmp cbLeft cbOff sg1 sg2 rounds
  simp only [if_neg asked, if_neg (show ¬ cbCmp = 0 by omega), ← hc] at unfolded
  have refused (large : cbSegMax < sg1.cbSegLeft ∨ cbSegMax < sg2.cbSegLeft) :
      ¬ CmpClear sg1 sg2 cbLeft := by
    rintro ⟨n, decides, small1, small2⟩
    have some := decides.pos (by omega)
    have fits1 := (small1.resolve_left (by omega)).1
    have fits2 := (small2.resolve_left (by omega)).1
    omega
  obtain ⟨large, got1⟩ | ⟨small1, ptr1, sg1', got1, takes1⟩ :=
    sgBufGet_takes pos1 (show c ≤ sg1.cbSegLeft by omega)
  · simp only [got1] at unfolded
    exact .inl ⟨refused (.inl large), unfolded⟩
  obtain ⟨large, got2⟩ | ⟨small2, ptr2, sg2', got2, takes2⟩ :=
    sgBufGet_takes pos2 (show c ≤ sg2.cbSegLeft by omega)
  · simp only [got1, got2] at unfolded
    exact .inl ⟨refused (.inr large), unfolded⟩
  simp only [got1, got2, takes1.bytes_eq, takes2.bytes_eq] at unfolded
  have total1 := remaining_eq sg1
  have total2 := remaining_eq sg2
  have length1 := length_ahead pos1
  have length2 := length_ahead pos2
  have sizes : ((ahead sg1).take c).length = ((ahead sg2).take c).length := by
    rw [length_take, length_take]
    omega
  right
  obtain ⟨zero, agree⟩ | ⟨x, y, diff, value⟩ := memcmp_cases sizes
  · right
    simp only [if_neg (not_not_intro zero)] at unfolded
    refine ⟨c, _, _, sg1', sg2', takes1, takes2, rfl, agree, ?_, unfolded⟩
    rw [CmpClear, CmpClear, takes1.ahead_eq, takes2.ahead_eq]
    constructor
    · rintro ⟨n, decides, clear1, clear2⟩
      have some := decides.pos (by omega)
      obtain ⟨reached, rest⟩ :=
        (decides_drop agree (by omega) (by omega) (by omega)).mp decides
      exact ⟨n - c, rest, (takes1.small n some).mp clear1, (takes2.small n some).mp clear2⟩
    · rintro ⟨n, decides, clear1, clear2⟩
      have all : Decides (c + n) cbLeft (ahead sg1) (ahead sg2) := by
        rw [decides_drop agree (by omega) (by omega) (by omega), Nat.add_sub_cancel_left]
        exact ⟨Nat.le_add_right _ _, decides⟩
      have some := all.pos (by omega)
      refine ⟨c + n, all, (takes1.small _ some).mpr ?_, (takes2.small _ some).mpr ?_⟩ <;>
        rwa [Nat.add_sub_cancel_left]
  · left
    have inside := diff.lt_left
    rw [length_take] at inside
    have whole := (firstDiff_take (by omega)).mp diff
    simp only [value, if_pos diff.sub_ne_zero] at unfolded
    refine ⟨_, _, sg1', sg2', ?_, .inr ⟨_, x, y, by omega, whole, rfl, rfl⟩, unfolded⟩
    refine ⟨_, .inr ⟨_, x, y, rfl, by omega, whole⟩, .inr ⟨small1, ?_⟩, .inr ⟨small2, ?_⟩⟩ <;>
    · rw [show _ - _ = 0 by omega]
      exact small_zero _

/-- A loop that ends well was clear, and says how the bytes compare. -/
theorem cmpLoop_sound {rounds : Nat} {rc : Int} {stored : Option Nat} {sg1' sg2' : RtSgBuf}
    (pos1 : Positioned sg1) (pos2 : Positioned sg2) (within : cbLeft ≤ cbCmp)
    (ended : cmpLoop cbCmp rounds cbLeft cbOff sg1 sg2 = some (.done rc stored sg1' sg2')) :
    CmpClear sg1 sg2 cbLeft ∧
      ∃ off, Verdict cbLeft (ahead sg1) (ahead sg2) rc off ∧ stored = off.map (cbOff + ·) := by
  induction rounds generalizing cbLeft cbOff sg1 sg2 with
  | zero => cases ended
  | succ rounds ih =>
    by_cases asked : cbLeft = 0
    · subst asked
      rw [cmpLoop, if_pos rfl] at ended
      have none : (ahead sg1).take 0 = (ahead sg2).take 0 := rfl
      cases ended
      refine ⟨⟨0, .inl ⟨rfl, Nat.zero_le _, Nat.zero_le _, none⟩, small_zero _, small_zero _⟩,
        Option.none, .inl ⟨Nat.zero_le _, Nat.zero_le _, none, rfl, rfl⟩, rfl⟩
    obtain ⟨-, step⟩ | ⟨rc', off, sg1'', sg2'', clear, verdict, step⟩ |
        ⟨c, bytes1, bytes2, next1, next2, takes1, takes2, hc, agree, clear, step⟩ :=
      cmpLoop_round pos1 pos2 asked within
    · rw [step] at ended
      cases ended
    · rw [step] at ended
      cases ended
      exact ⟨clear, some off, verdict, rfl⟩
    · rw [step] at ended
      obtain ⟨reached, off, verdict, rfl⟩ :=
        ih takes1.positioned takes2.positioned (by omega) ended
      have total1 := remaining_eq sg1
      have total2 := remaining_eq sg2
      rw [takes1.ahead_eq, takes2.ahead_eq] at verdict
      refine ⟨clear.mpr reached, off.map (c + ·), ?_, ?_⟩
      · exact verdict.drop agree (by omega) (by rw [length_ahead pos1]; omega)
          (by rw [length_ahead pos2]; omega)
      · rw [Option.map_map]
        refine congrFun (congrArg Option.map (funext fun i => ?_)) off
        exact Nat.add_assoc _ _ _

/-- A clear loop ends: each round takes bytes, or leaves an empty segment. -/
theorem cmpLoop_ends (cbOff : Nat) (pos1 : Positioned sg1) (pos2 : Positioned sg2)
    (within : cbLeft ≤ cbCmp) (clear : CmpClear sg1 sg2 cbLeft) : ∃ rounds rc stored sg1' sg2',
      cmpLoop cbCmp rounds cbLeft cbOff sg1 sg2 = some (.done rc stored sg1' sg2') := by
  induction todo : work sg1 + work sg2 using Nat.strong_induction_on
    generalizing cbLeft cbOff sg1 sg2 with
  | _ _ ih =>
  by_cases asked : cbLeft = 0
  · exact ⟨1, 0, none, sg1, sg2, by rw [cmpLoop, if_pos asked]⟩
  have there : 0 < remaining sg1 ∧ 0 < remaining sg2 := by
    obtain ⟨n, decides, -⟩ := clear
    have some := decides.pos (by omega)
    obtain ⟨-, left, right⟩ := decides.le
    rw [length_ahead pos1] at left
    rw [length_ahead pos2] at right
    omega
  obtain ⟨blocked, -⟩ | ⟨rc, off, sg1', sg2', -, -, step⟩ |
      ⟨c, bytes1, bytes2, next1, next2, takes1, takes2, hc, -, next, step⟩ :=
    cmpLoop_round pos1 pos2 asked within
  · exact absurd clear blocked
  · exact ⟨1, rc, some (cbOff + off), sg1', sg2', step 0⟩
  · -- a chunk of no bytes is at an empty segment of one of the two
    have less : work next1 + work next2 < work sg1 + work sg2 := by
      have le1 := takes1.work_le
      have le2 := takes2.work_le
      rcases Nat.eq_zero_or_pos sg1.cbSegLeft with empty | some
      · have := takes1.work_lt (.inr ⟨empty, there.1⟩)
        omega
      · have := takes2.work_lt (by omega)
        omega
    obtain ⟨rounds, rc, stored, sg1', sg2', ended⟩ :=
      ih _ (todo ▸ less) (cbOff + c) takes1.positioned takes2.positioned (by omega)
        (next.mp clear) rfl
    exact ⟨rounds + 1, rc, stored, sg1', sg2', (step rounds).trans ended⟩

end Loop

/-- The comparison ends and is exact just if the bytes that are asked for are there in both
buffers or a difference comes before the end of the shorter, with small pieces up to there. -/
theorem cmpExact_iff {sg1 sg2 : RtSgBuf} (pos1 : Positioned sg1) (pos2 : Positioned sg2)
    (cbCmp : Nat) : CmpExact sg1 sg2 cbCmp ↔ CmpClear sg1 sg2 cbCmp := by
  constructor
  · rintro ⟨⟨rounds, rc, off, ended, -⟩, -⟩
    rw [rtSgBufCmp] at ended
    cases run : cmpLoop cbCmp rounds cbCmp 0 sg1 sg2 with
    | none =>
      rw [run] at ended
      cases ended
    | some result =>
      cases result with
      | assertion =>
        rw [run] at ended
        cases ended
      | done rc stored sg1' sg2' => exact (cmpLoop_sound pos1 pos2 (Nat.le_refl _) run).1
  · intro clear
    obtain ⟨rounds, rc, stored, sg1', sg2', ended⟩ :=
      cmpLoop_ends 0 pos1 pos2 (Nat.le_refl _) clear
    obtain ⟨-, off, verdict, rfl⟩ := cmpLoop_sound pos1 pos2 (Nat.le_refl _) ended
    have same : off.map (0 + ·) = off := by
      rw [show ((0 : Nat) + ·) = id from funext Nat.zero_add, Option.map_id, id]
    have compares := verdict.compares
    rw [same] at ended
    rw [length_ahead pos1, length_ahead pos2] at compares
    refine ⟨⟨rounds, rc, off, by rw [rtSgBufCmp, ended]; rfl, compares⟩, fun pcbOff fAdvance => ?_⟩
    cases fAdvance with
    | false =>
      exact ⟨rounds, rc, off, sg1, sg2, by rw [rtSgBufCmpEx, ended]; rfl, compares,
        fun _ => ⟨rfl, rfl⟩⟩
    | true =>
      exact ⟨rounds, rc, off, sg1', sg2', by rw [rtSgBufCmpEx, ended]; rfl, compares,
        fun kept => by cases kept⟩

theorem cmpExact_one : CmpExact (rtSgBufInit [[7]]) (rtSgBufInit [[8]]) 2 :=
  (cmpExact_iff (.inr ⟨[7], rfl, by decide, rfl⟩) (.inr ⟨[8], rfl, by decide, rfl⟩) 2).mpr
    ⟨1, .inr ⟨0, 7, 8, rfl, by decide, rfl, rfl, rfl, by decide⟩,
      .inr ⟨by decide, trivial⟩, .inr ⟨by decide, trivial⟩⟩

/-- Equal buffers with less than is asked for are compared for ever. -/
theorem not_cmpExact_past_end : ¬ CmpExact (rtSgBufInit [[7]]) (rtSgBufInit [[7]]) 2 := by
  have behind : ∀ rounds cbOff, cmpLoop 2 rounds 1 cbOff ⟨[[7]], 1, ⟨0, 0⟩, 0⟩
      ⟨[[7]], 1, ⟨0, 0⟩, 0⟩ = none := by
    intro rounds
    induction rounds with
    | zero => exact fun _ => rfl
    | succ rounds ih => exact fun cbOff => ih (cbOff + 0)
  rintro ⟨⟨rounds, rc, off, ended, -⟩, -⟩
  cases rounds with
  | zero => cases ended
  | succ rounds =>
    have run : cmpLoop 2 (rounds + 1) 2 0 (rtSgBufInit [[7]]) (rtSgBufInit [[7]]) = none :=
      behind rounds 1
    rw [rtSgBufCmp, run] at ended
    cases ended

end VBox.Runtime
