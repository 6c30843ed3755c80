import VBox.Runtime.Sg

/-!
Scatter/gather buffers as byte streams.

`view` reads a buffer as one byte string with a position. `sgRun_iff` says when
the transfer functions do to the string what they are meant to do: exactly when
every piece a request reaches is at most 32 MiB long and is not empty, unless only
empty ones follow (`Clear`). `sgBufGet` asserts the first; the loops take an empty
piece for the end of the buffer.
-/

namespace VBox.Runtime

open List (drop_drop length length_drop length_map length_range length_replicate map_nil range sum_cons)
open VBox.Lib

/-! ### The buffer as a byte string -/

/-- A byte string with a position. -/
structure ByteStream where
  bytes : List UInt8
  pos : Nat
  deriving DecidableEq, Repr

/-- The sizes of the segments behind the current one. -/
def later (sg : RtSgBuf) : List Nat := (sg.paSegs.drop (sg.idxSeg + 1)).map List.length

/-- What is left of the current segment, and the segments behind it. -/
def pieces (sg : RtSgBuf) : List Nat := sg.cbSegLeft :: later sg

def remaining (sg : RtSgBuf) : Nat := (pieces sg).sum

def position (sg : RtSgBuf) : Nat := sg.paSegs.flatten.length - remaining sg

def view (sg : RtSgBuf) : ByteStream := ⟨sg.paSegs.flatten, position sg⟩

/-- A request of `n` bytes meets no piece that the code refuses: each piece it
reaches is at most 32 MiB, and an empty one is followed by empty ones only. -/
def Clear : Nat → List Nat → Prop
  | _, [] => True
  | n, p :: ps => n = 0 ∨ p ≤ cbSegMax ∧ (0 < p ∨ ps.sum = 0) ∧ Clear (n - p) ps

/-- The cursor is inside a segment, or behind the last one. -/
def Positioned (sg : RtSgBuf) : Prop :=
  sg.idxSeg = sg.paSegs.length ∧ sg.cbSegLeft = 0 ∨
    ∃ seg, sg.paSegs[sg.idxSeg]? = some seg ∧ sg.cbSegLeft ≤ seg.length ∧
      sg.pvSegCur = ⟨sg.idxSeg, seg.length - sg.cbSegLeft⟩

section Pieces

variable {n m p : Nat} {ps : List Nat}

@[simp] theorem clear_zero (ps : List Nat) : Clear 0 ps := by
  cases ps with
  | nil => trivial
  | cons p ps => exact Or.inl rfl

/-- Empty pieces stop nothing. -/
theorem clear_of_sum_eq_zero (empty : ps.sum = 0) (n : Nat) : Clear n ps := by
  induction ps with
  | nil => trivial
  | cons p ps ih =>
    rw [sum_cons, Nat.add_eq_zero_iff] at empty
    obtain ⟨rfl, rest⟩ := empty
    exact Or.inr ⟨Nat.zero_le _, Or.inr rest, ih rest⟩

/-- An empty piece stops a request unless nothing follows. -/
theorem clear_zero_cons (positive : 0 < n) : Clear n (0 :: ps) ↔ ps.sum = 0 := by
  constructor
  · rintro (rfl | ⟨-, impossible | empty, -⟩)
    · exact absurd positive (Nat.lt_irrefl 0)
    · exact absurd impossible (Nat.lt_irrefl 0)
    · exact empty
  · intro empty
    exact Or.inr ⟨Nat.zero_le _, Or.inr empty, clear_of_sum_eq_zero empty _⟩

/-- Taking part of a piece. -/
theorem clear_cons (positive : 0 < n) (fits : n ≤ p) (asked : n ≤ m) : Clear m (p :: ps) ↔
      p ≤ cbSegMax ∧ Clear (m - n) (if p - n = 0 then ps else (p - n) :: ps) := by
  have someAsked : ¬ m = 0 := by omega
  have somePiece : 0 < p := by omega
  have start : Clear m (p :: ps) ↔ p ≤ cbSegMax ∧ Clear (m - p) ps := by
    constructor
    · rintro (none | ⟨small, -, rest⟩)
      · exact absurd none someAsked
      · exact ⟨small, rest⟩
    · rintro ⟨small, rest⟩
      exact Or.inr ⟨small, Or.inl somePiece, rest⟩
  rw [start]
  refine and_congr_right fun small => ?_
  split
  · rename_i all
    rw [show m - n = m - p by omega]
  · rename_i some
    have amount : m - n - (p - n) = m - p := by omega
    constructor
    · intro rest
      refine Or.inr ⟨by omega, Or.inl (by omega), ?_⟩
      rwa [amount]
    · rintro (none | ⟨-, -, rest⟩)
      · rw [show m - p = 0 by omega]
        exact clear_zero ps
      · rwa [amount] at rest

end Pieces

/-! ### One chunk -/

variable {seg : List UInt8}

section Chunk

variable {sg : RtSgBuf}

theorem remaining_eq (sg : RtSgBuf) : remaining sg = sg.cbSegLeft + (later sg).sum :=
  sum_cons

/-- The sizes behind the current segment, one by one. -/
theorem later_of_none (last : sg.paSegs[sg.idxSeg + 1]? = none) : later sg = [] := by
  rw [later, List.drop_eq_nil_of_le (List.getElem?_eq_none_iff.mp last), map_nil]

theorem later_of_some (next : sg.paSegs[sg.idxSeg + 1]? = some seg) :
    later sg = seg.length :: (sg.paSegs.drop (sg.idxSeg + 1 + 1)).map length := by
  obtain ⟨inside, rfl⟩ := List.getElem?_eq_some_iff.mp next
  rw [later, List.drop_eq_getElem_cons inside, List.map_cons]

/-- The whole string is what lies before the current segment, the segment and
what lies behind it. -/
theorem length_flatten (found : sg.paSegs[sg.idxSeg]? = some seg) :
    sg.paSegs.flatten.length = prefixLength sg.paSegs sg.idxSeg + seg.length + (later sg).sum := by
  rw [flatten_split found, List.length_append, List.length_append, length_flatten_take,
    List.length_flatten, later]

/-- Inside a segment the position is the address of the pointer. -/
theorem position_eq (found : sg.paSegs[sg.idxSeg]? = some seg) (left : sg.cbSegLeft ≤ seg.length) :
    position sg = prefixLength sg.paSegs sg.idxSeg + (seg.length - sg.cbSegLeft) := by
  rw [position, length_flatten found, remaining_eq]
  omega

theorem Positioned.remaining_le (positioned : Positioned sg) :
    remaining sg ≤ sg.paSegs.flatten.length := by
  rcases positioned with ⟨atEnd, left⟩ | ⟨seg, found, left, -⟩
  · have last : sg.paSegs[sg.idxSeg + 1]? = none := by
      rw [List.getElem?_eq_none_iff]
      omega
    rw [remaining_eq, left, later_of_none last]
    exact Nat.zero_le _
  · rw [length_flatten found, remaining_eq]
    omega

/-- What `sgBufGet` does when it hands out `n` bytes. -/
structure Gets (sg : RtSgBuf) (ptr : SegPtr) (n : Nat) (sg' : RtSgBuf) : Prop where
  segs : sg'.paSegs = sg.paSegs
  positioned : Positioned sg'
  place : ∃ seg, sg.paSegs[ptr.seg]? = some seg ∧ ptr.off + n ≤ seg.length
  address : prefixLength sg.paSegs ptr.seg + ptr.off = position sg
  rest : remaining sg' + n = remaining sg
  clear : ∀ m, Clear m (pieces sg') ↔
    Clear m (if sg.cbSegLeft - n = 0 then later sg else (sg.cbSegLeft - n) :: later sg)

theorem sgBufGet_cases (positioned : Positioned sg) (cb : Nat) :
    (remaining sg = 0 ∧ sgBufGet sg cb = some (none, 0, sg)) ∨
    (cbSegMax < sg.cbSegLeft ∧ sgBufGet sg cb = none) ∨ (sg.cbSegLeft ≤ cbSegMax ∧ ∃ ptr sg',
      sgBufGet sg cb = some (some ptr, min cb sg.cbSegLeft, sg') ∧
      Gets sg ptr (min cb sg.cbSegLeft) sg') := by
  rcases positioned with ⟨atEnd, left⟩ | ⟨seg, found, left, ptr⟩
  · refine Or.inl ⟨?_, ?_⟩
    · have last : sg.paSegs[sg.idxSeg + 1]? = none := by
        rw [List.getElem?_eq_none_iff]
        omega
      rw [remaining_eq, left, later_of_none last]
      rfl
    · rw [sgBufGet, if_pos ⟨atEnd, left⟩]
  · obtain ⟨inside, -⟩ := List.getElem?_eq_some_iff.mp found
    have notEnd : ¬ (sg.idxSeg = sg.paSegs.length ∧ sg.cbSegLeft = 0) := by
      rintro ⟨atEnd, -⟩
      omega
    have covered : sg.pvSegCur.off + sg.cbSegLeft ≤ seg.length := by
      rw [ptr]
      exact (Nat.sub_add_cancel left).le
    right
    by_cases small : sg.cbSegLeft ≤ cbSegMax
    · right
      refine ⟨small, ?_⟩
      have asserted : sgAssert sg = true := by
        simp [sgAssert, found, small, covered, congrArg SegPtr.seg ptr]
      have atMost : min cb sg.cbSegLeft ≤ sg.cbSegLeft := Nat.min_le_right _ _
      have place : ∃ seg, sg.paSegs[sg.pvSegCur.seg]? = some seg ∧
          sg.pvSegCur.off + min cb sg.cbSegLeft ≤ seg.length := by
        rw [ptr]
        refine ⟨seg, found, ?_⟩
        dsimp only
        omega
      have address : prefixLength sg.paSegs sg.pvSegCur.seg + sg.pvSegCur.off = position sg := by
        rw [position_eq found left, ptr]
      rw [sgBufGet, if_neg notEnd, if_neg (by rw [asserted]; decide)]
      dsimp only
      by_cases all : sg.cbSegLeft - min cb sg.cbSegLeft = 0
      · rw [if_pos all]
        cases next : sg.paSegs[sg.idxSeg + 1]? with
        | some seg' =>
          refine ⟨_, _, rfl, rfl, ?_, place, address, ?_, fun m => ?_⟩
          · exact Or.inr ⟨seg', next, le_refl _, by simp⟩
          · rw [remaining_eq, remaining_eq, later_of_some next, sum_cons, later]
            dsimp only
            omega
          · rw [if_pos all, later_of_some next]
            rfl
        | none =>
          have ended := List.getElem?_eq_none_iff.mp next
          have nothing : (sg.paSegs.drop (sg.idxSeg + 1 + 1)).map length = [] := by
            rw [List.drop_eq_nil_of_le (by omega), map_nil]
          refine ⟨_, _, rfl, rfl, ?_, place, address, ?_, fun m => ?_⟩
          · refine Or.inl ⟨?_, rfl⟩
            dsimp only
            omega
          · rw [remaining_eq, remaining_eq, later_of_none next, later, nothing]
            dsimp only
            rw [List.sum_nil]
            omega
          · rw [if_pos all, later_of_none next, pieces, later, nothing]
            exact iff_of_true (clear_of_sum_eq_zero rfl m) trivial
      · have whole : min cb sg.cbSegLeft = cb := by omega
        rw [whole] at all place atMost ⊢
        rw [if_neg all]
        refine ⟨_, _, rfl, rfl, ?_, place, address, ?_, fun m => ?_⟩
        · refine Or.inr ⟨seg, found, ?_, ?_⟩
          · dsimp only
            omega
          · rw [ptr]
            dsimp only
            congr 1
            omega
        · rw [remaining_eq, remaining_eq]
          dsimp only [later]
          omega
        · rw [if_neg all]
          rfl
    · left
      have refused : sgAssert sg = false := by
        simp [sgAssert, found, small]
      refine ⟨Nat.lt_of_not_le small, ?_⟩
      rw [sgBufGet, if_neg notEnd, if_pos refused]

end Chunk

/-! ### Memory and the byte string -/

section Memory

variable {mem mem' : List (List UInt8)} {ptr : SegPtr} {sg : RtSgBuf}

variable {data : List UInt8}

section

variable (found : mem[ptr.seg]? = some seg) (inside : ptr.off + data.length ≤ seg.length)

include found inside

theorem writeMem_shape : (writeMem mem ptr data).map length = mem.map length := by
  obtain ⟨bound, rfl⟩ := List.getElem?_eq_some_iff.mp found
  have same : (mem.map length).set ptr.seg mem[ptr.seg].length = mem.map length := by
    rw [← List.getElem_map length (h := by simpa using bound), List.set_getElem_self]
  rw [writeMem, found]
  dsimp only
  rw [List.map_set, length_splice inside, same]

theorem writeMem_flatten : (writeMem mem ptr data).flatten =
      splice mem.flatten (prefixLength mem ptr.seg + ptr.off) data := by
  rw [writeMem, found]
  exact flatten_set_splice found inside

end

theorem readMem_eq {n : Nat} (found : mem[ptr.seg]? = some seg) (inside : ptr.off + n ≤ seg.length)
    : readMem mem ptr n = (mem.flatten.drop (prefixLength mem ptr.seg + ptr.off)).take n := by
  rw [readMem, found]
  exact take_drop_flatten found inside

section

variable (shape : mem.map length = sg.paSegs.map length)

include shape

/-- The cursor only looks at the sizes of the segments. -/
theorem later_reshape : later { sg with paSegs := mem } = later sg := by
  rw [later, later, List.map_drop, List.map_drop, shape]

theorem length_reshape : mem.flatten.length = sg.paSegs.flatten.length := by
  rw [List.length_flatten, List.length_flatten, shape]

theorem remaining_reshape : remaining { sg with paSegs := mem } = remaining sg := by
  rw [remaining, remaining, pieces, pieces, later_reshape shape]

theorem position_reshape : position { sg with paSegs := mem } = position sg := by
  rw [position, position, remaining_reshape shape, length_reshape shape]

end

theorem Positioned.reshape (positioned : Positioned sg)
    (shape : mem.map length = sg.paSegs.map length) :
    Positioned { sg with paSegs := mem } := by
  rcases positioned with ⟨atEnd, left⟩ | ⟨seg, found, left, ptr⟩
  · refine Or.inl ⟨?_, left⟩
    have count := congrArg length shape
    rw [length_map, length_map] at count
    exact atEnd.trans count.symm
  · have entry : (mem.map length)[sg.idxSeg]? = some seg.length := by
      rw [shape, List.getElem?_map, found]
      rfl
    rw [List.getElem?_map] at entry
    obtain ⟨seg', found', size⟩ := Option.map_eq_some_iff.mp entry
    refine Or.inr ⟨seg', found', ?_, ?_⟩
    · rw [size]
      exact left
    · rw [size]
      exact ptr

end Memory

/-! ### The loop -/

/-- What a transfer of `n` bytes at a position does to the string and its own
state. -/
abbrev StreamFun (α : Type) := List UInt8 → Nat → Nat → α → List UInt8 × α

/-- The use of a chunk is the transfer at the chunk's address, and transfers side
by side are one. -/
structure StreamUse {α : Type} (use : ChunkUse α) (flat : StreamFun α) : Prop where
  shape : ∀ {mem : List (List UInt8)} {ptr : SegPtr} {n : Nat} {seg : List UInt8} (a : α),
    mem[ptr.seg]? = some seg → ptr.off + n ≤ seg.length →
    (use mem ptr n a).1.map List.length = mem.map List.length
  chunk : ∀ {mem : List (List UInt8)} {ptr : SegPtr} {n : Nat} {seg : List UInt8} (a : α),
    mem[ptr.seg]? = some seg → ptr.off + n ≤ seg.length →
    ((use mem ptr n a).1.flatten, (use mem ptr n a).2) =
      flat mem.flatten (prefixLength mem ptr.seg + ptr.off) n a
  nothing : ∀ (bytes : List UInt8) (pos : Nat) (a : α), flat bytes pos 0 a = (bytes, a)
  join : ∀ {bytes : List UInt8} {pos m n : Nat} (a : α), pos + m + n ≤ bytes.length →
    flat bytes pos (m + n) a = flat (flat bytes pos m a).1 (pos + m) n (flat bytes pos m a).2

section Loop

variable {α : Type} {use : ChunkUse α} {flat : StreamFun α} {sg : RtSgBuf} {cb : Nat}

/-- The number of bytes a request of `cb` gets. -/
def available (sg : RtSgBuf) (cb : Nat) : Nat := min cb (remaining sg)

/-- A loop that did the whole transfer. -/
def Transfers (use : ChunkUse α) (flat : StreamFun α) (cb : Nat) (sg : RtSgBuf) (a : α) : Prop :=
  ∃ sg', sgLoop use cb sg a = some (cb - available sg cb, sg',
      (flat sg.paSegs.flatten (position sg) (available sg cb) a).2) ∧
    Positioned sg' ∧
    view sg' = ⟨(flat sg.paSegs.flatten (position sg) (available sg cb) a).1,
      position sg + available sg cb⟩

/-- A loop that asserts or does less. -/
def FallsShort (use : ChunkUse α) (cb : Nat) (sg : RtSgBuf) (a : α) : Prop :=
  ∀ r, sgLoop use cb sg a = some r → cb - available sg cb < r.1

theorem Gets.moved {ptr : SegPtr} {n : Nat} {sg' : RtSgBuf} (gets : Gets sg ptr n sg')
    (positioned : Positioned sg) : position sg' = position sg + n := by
  have whole := positioned.remaining_le
  have moved := gets.rest
  rw [position, position, gets.segs]
  omega

/-- One chunk used: `next` is the buffer afterwards, `b` the state. -/
structure Moves (flat : StreamFun α) (sg : RtSgBuf) (n : Nat) (a : α) (next : RtSgBuf) (b : α) :
    Prop where
  positioned : Positioned next
  left : remaining next + n = remaining sg
  place : position next = position sg + n
  transfer : (next.paSegs.flatten, b) = flat sg.paSegs.flatten (position sg) n a
  clear : ∀ m, Clear m (pieces next) ↔
    Clear m (if sg.cbSegLeft - n = 0 then later sg else (sg.cbSegLeft - n) :: later sg)

theorem Gets.moves {ptr : SegPtr} {n : Nat} {sg' : RtSgBuf} (gets : Gets sg ptr n sg')
    (positioned : Positioned sg) (law : StreamUse use flat) (a : α) :
    Moves flat sg n a { sg' with paSegs := (use sg'.paSegs ptr n a).1 }
      (use sg'.paSegs ptr n a).2 := by
  obtain ⟨seg, found, fits⟩ := gets.place
  rw [← gets.segs] at found
  have shape := law.shape a found fits
  have chunk := law.chunk a found fits
  constructor
  · exact gets.positioned.reshape shape
  · rw [remaining_reshape shape]
    exact gets.rest
  · rw [position_reshape shape, gets.moved positioned]
  · rw [chunk, gets.segs, gets.address]
  · intro m
    rw [pieces, later_reshape shape]
    exact gets.clear m

/-- Nothing is left to transfer. -/
theorem StreamUse.transfers_nothing (law : StreamUse use flat) {a : α} {sg' : RtSgBuf}
    (nothing : available sg cb = 0) (run : sgLoop use cb sg a = some (cb, sg', a))
    (positioned : Positioned sg') (same : view sg' = view sg) : Transfers use flat cb sg a := by
  refine ⟨sg', ?_, positioned, ?_⟩
  · rw [nothing, Nat.sub_zero, law.nothing, run]
  · rw [nothing, law.nothing, same]
    rfl

theorem StreamUse.loop (law : StreamUse use flat) (positioned : Positioned sg) (a : α) :
    (Clear cb (pieces sg) → Transfers use flat cb sg a) ∧
      (¬ Clear cb (pieces sg) → FallsShort use cb sg a) := by
  induction cb using Nat.strong_induction_on generalizing sg a with
  | _ cb ih =>
  by_cases done : cb = 0
  · subst done
    have run : sgLoop use 0 sg a = some (0, sg, a) := by rw [sgLoop, if_pos rfl]
    exact ⟨fun _ => law.transfers_nothing (Nat.zero_min _) run positioned rfl,
      fun blocked => absurd (clear_zero _) blocked⟩
  have asked : 0 < cb := Nat.pos_of_ne_zero done
  rcases sgBufGet_cases positioned cb with ⟨atEnd, get⟩ | ⟨large, get⟩ | ⟨small, ptr, sg', get, gets⟩
  · -- behind the last segment
    have run : sgLoop use cb sg a = some (cb, sg, a) := by
      rw [sgLoop, if_neg done, get]
    have nothing : available sg cb = 0 := by rw [available, atEnd, Nat.min_zero]
    exact ⟨fun _ => law.transfers_nothing nothing run positioned rfl,
      fun blocked => absurd (clear_of_sum_eq_zero atEnd cb) blocked⟩
  · -- the assertion of `sgBufGet` fails
    have run : sgLoop use cb sg a = none := by
      rw [sgLoop, if_neg done, get]
    constructor
    · rintro (none | ⟨small, -, -⟩)
      · exact absurd none done
      · exact absurd large (Nat.not_lt_of_le small)
    · intro _ r impossible
      rw [run] at impossible
      cases impossible
  · by_cases empty : min cb sg.cbSegLeft = 0
    · -- an empty segment: the loop ends here
      have left : sg.cbSegLeft = 0 := by omega
      have run : sgLoop use cb sg a = some (cb, sg', a) := by
        rw [sgLoop, if_neg done, get]
        dsimp only
        rw [if_pos empty]
      have clear : Clear cb (pieces sg) ↔ (later sg).sum = 0 := by
        rw [pieces, left]
        exact clear_zero_cons asked
      have rest := remaining_eq sg
      constructor
      · intro open'
        have nothing : available sg cb = 0 := by
          have behind := clear.mp open'
          rw [available]
          omega
        refine law.transfers_nothing nothing run gets.positioned ?_
        rw [view, view, gets.moved positioned, gets.segs, empty, Nat.add_zero]
      · intro blocked r result
        have behind : (later sg).sum ≠ 0 := fun none => blocked (clear.mpr none)
        rw [run] at result
        cases result
        rw [available]
        dsimp only
        omega
    · -- a chunk, and then the rest of the request
      have moves := gets.moves positioned law a
      have run : sgLoop use cb sg a = sgLoop use (cb - min cb sg.cbSegLeft)
          { sg' with paSegs := (use sg'.paSegs ptr (min cb sg.cbSegLeft) a).1 }
          (use sg'.paSegs ptr (min cb sg.cbSegLeft) a).2 := by
        rw [sgLoop, if_neg done, get]
        dsimp only
        rw [if_neg empty]
      have atMost : min cb sg.cbSegLeft ≤ sg.cbSegLeft := Nat.min_le_right _ _
      have notMore : min cb sg.cbSegLeft ≤ cb := Nat.min_le_left _ _
      have clear : Clear cb (sg.cbSegLeft :: later sg) ↔ _ :=
        clear_cons (Nat.pos_of_ne_zero empty) atMost notMore
      rw [← moves.clear, and_iff_right small] at clear
      generalize { sg' with paSegs := (use sg'.paSegs ptr (min cb sg.cbSegLeft) a).1 } = next
        at moves run clear
      generalize (use sg'.paSegs ptr (min cb sg.cbSegLeft) a).2 = b at moves run
      generalize min cb sg.cbSegLeft = n at *
      have rest : available next (cb - n) + n = available sg cb := by
        have moved := moves.left
        rw [available, available]
        omega
      obtain ⟨whole, short⟩ := ih (cb - n) (by omega) moves.positioned b
      constructor
      · intro open'
        obtain ⟨sg'', result, positioned'', seen⟩ := whole (clear.mp open')
        have inside : position sg + n + available next (cb - n) ≤ sg.paSegs.flatten.length := by
          have total := positioned.remaining_le
          have bound : available sg cb ≤ remaining sg := Nat.min_le_right _ _
          rw [position]
          omega
        have joined := law.join a inside
        rw [Nat.add_comm n, rest, ← moves.transfer] at joined
        rw [moves.place, ← joined] at result seen
        refine ⟨sg'', ?_, positioned'', ?_⟩
        · rw [run, result]
          congr 2
          omega
        · rw [seen]
          congr 1
          omega
      · intro blocked r result
        rw [run] at result
        have less := short (fun open' => blocked (clear.mpr open')) r result
        omega

end Loop

/-! ### The four transfers with one buffer -/

section Uses

def setBytes (ubFill : UInt8) : StreamFun Unit :=
  fun bytes pos n _ => (splice bytes pos (List.replicate n ubFill), ())

def copyOut : StreamFun (List UInt8) :=
  fun bytes pos n out => (bytes, out ++ (bytes.drop pos).take n)

def copyIn : StreamFun Buf :=
  fun bytes pos n buf => (splice bytes pos ((List.range n).map buf), buf.drop n)

def skipBytes : StreamFun Unit := fun bytes _ _ a => (bytes, a)

theorem memset_use (ubFill : UInt8) : StreamUse (memset ubFill) (setBytes ubFill) where
  shape _ found fits := writeMem_shape found (by rwa [length_replicate])
  chunk _ found fits := by
    rw [memset, setBytes, writeMem_flatten found (by rwa [length_replicate])]
  nothing bytes pos _ := by rw [setBytes, List.replicate_zero, splice_nil]
  join := by
    intro bytes pos m n _ inside
    have both := splice_splice (l := bytes) (a := List.replicate m ubFill)
      (b := List.replicate n ubFill) (by simpa only [length_replicate] using inside)
    rw [length_replicate, List.replicate_append_replicate] at both
    simp only [setBytes]
    rw [both]

theorem memcpyOut_use : StreamUse memcpyOut copyOut where
  shape _ _ _ := rfl
  chunk out found fits := by
    rw [memcpyOut, copyOut, readMem_eq found fits]
  nothing bytes pos out := by rw [copyOut, List.take_zero, List.append_nil]
  join := by
    intro bytes pos m n out _
    simp only [copyOut]
    rw [List.take_add, drop_drop, List.append_assoc]

theorem memcpyIn_use : StreamUse memcpyIn copyIn where
  shape _ found fits := writeMem_shape found (by simpa using fits)
  chunk _ found fits := by
    rw [memcpyIn, copyIn, writeMem_flatten found (by simpa using fits)]
  nothing bytes pos buf := by
    have same : buf.drop 0 = buf := funext fun i => by rw [Buf.drop_apply, Nat.zero_add]
    rw [copyIn, List.range_zero, map_nil, splice_nil, same]
  join := by
    intro bytes pos m n buf inside
    have both := splice_splice (l := bytes) (a := (range m).map buf)
      (b := (range n).map (buf.drop m)) (by simpa using inside)
    have joined : (range m).map buf ++ (range n).map (buf.drop m) = (range (m + n)).map buf := by
      rw [List.range_add, List.map_append, List.map_map]
      rfl
    have after : (buf.drop m).drop n = buf.drop (m + n) :=
      funext fun i => by simp only [Buf.drop_apply, Nat.add_assoc]
    rw [length_map, length_range, joined] at both
    simp only [copyIn]
    rw [both, after]

theorem skip_use : StreamUse skip skipBytes where
  shape _ _ _ := rfl
  chunk _ _ _ := rfl
  nothing _ _ _ := rfl
  join _ _ := rfl

end Uses

/-! ### Copying between two buffers -/

section Copy

variable {sgDst sgSrc : RtSgBuf} {cb : Nat}

/-- The number of bytes both buffers have for a request. -/
def copyAvailable (cb : Nat) (sgDst sgSrc : RtSgBuf) : Nat :=
  min cb (min (remaining sgDst) (remaining sgSrc))

/-- No buffer stops the copy before the other one, or the request, ends. -/
def CopyClear (cb : Nat) (sgDst sgSrc : RtSgBuf) : Prop :=
  Clear (min cb (remaining sgSrc)) (pieces sgDst) ∧
    Clear (min cb (remaining sgDst)) (pieces sgSrc)

/-- A copy that moved all the bytes both buffers have. -/
def Copies (cb : Nat) (sgDst sgSrc : RtSgBuf) : Prop :=
  ∃ sgDst' sgSrc',
    sgCopyLoop cb sgDst sgSrc = some (cb - copyAvailable cb sgDst sgSrc, sgDst', sgSrc') ∧
    Positioned sgDst' ∧ Positioned sgSrc' ∧
    view sgDst' = ⟨splice sgDst.paSegs.flatten (position sgDst)
      ((sgSrc.paSegs.flatten.drop (position sgSrc)).take (copyAvailable cb sgDst sgSrc)),
      position sgDst + copyAvailable cb sgDst sgSrc⟩ ∧
    view sgSrc' = ⟨sgSrc.paSegs.flatten, position sgSrc + copyAvailable cb sgDst sgSrc⟩

def CopyFallsShort (cb : Nat) (sgDst sgSrc : RtSgBuf) : Prop :=
  ∀ r, sgCopyLoop cb sgDst sgSrc = some r → cb - copyAvailable cb sgDst sgSrc < r.1

theorem copies_nothing (nothing : copyAvailable cb sgDst sgSrc = 0)
    (run : sgCopyLoop cb sgDst sgSrc = some (cb, sgDst, sgSrc)) (dst : Positioned sgDst)
    (src : Positioned sgSrc) : Copies cb sgDst sgSrc := by
  refine ⟨sgDst, sgSrc, ?_, dst, src, ?_, ?_⟩
  · rw [nothing, Nat.sub_zero, run]
  · rw [nothing, List.take_zero, splice_nil]
    rfl
  · rw [nothing]
    rfl

/-- Where one buffer is at an empty piece, the copy is clear only if one of them
has nothing left. -/
theorem copyClear_of_empty (asked : 0 < cb)
    (empty : min (min sgDst.cbSegLeft cb) sgSrc.cbSegLeft = 0) :
    CopyClear cb sgDst sgSrc ↔ copyAvailable cb sgDst sgSrc = 0 := by
  have dstRest := remaining_eq sgDst
  have srcRest := remaining_eq sgSrc
  constructor
  · rintro ⟨dst, src⟩
    by_contra some
    rw [copyAvailable] at some
    rcases Nat.eq_zero_or_pos sgDst.cbSegLeft with left | left
    · rw [pieces, left, clear_zero_cons (by omega)] at dst
      omega
    · have left' : sgSrc.cbSegLeft = 0 := by omega
      rw [pieces, left', clear_zero_cons (by omega)] at src
      omega
  · intro nothing
    rw [copyAvailable] at nothing
    rcases Nat.eq_zero_or_pos (remaining sgDst) with none | some
    · rw [CopyClear, none, Nat.min_zero]
      exact ⟨clear_of_sum_eq_zero none _, clear_zero _⟩
    · have none : remaining sgSrc = 0 := by omega
      rw [CopyClear, none, Nat.min_zero]
      exact ⟨clear_zero _, clear_of_sum_eq_zero none _⟩

theorem map_getD_range (data : List UInt8) :
    (range data.length).map (fun i => data.getD i 0) = data := by
  refine List.ext_getElem ?_ fun i inside _ => ?_
  · rw [length_map, length_range]
  · rw [length_map, length_range] at inside
    rw [List.getElem_map, List.getElem_range, List.getD_eq_getElem?_getD,
      List.getElem?_eq_getElem inside, Option.getD_some]

/-- Writing data of the chunk's length. -/
theorem Gets.moves_data {sg sg' : RtSgBuf} {ptr : SegPtr} {n : Nat} (gets : Gets sg ptr n sg')
    (positioned : Positioned sg) {data : List UInt8} (size : data.length = n) :
    ∃ next, next = { sg' with paSegs := writeMem sg'.paSegs ptr data } ∧ Positioned next ∧
      remaining next + n = remaining sg ∧ position next = position sg + n ∧
      next.paSegs.flatten = splice sg.paSegs.flatten (position sg) data ∧
      ∀ m, Clear m (pieces next) ↔
        Clear m (if sg.cbSegLeft - n = 0 then later sg else (sg.cbSegLeft - n) :: later sg) := by
  have moves := gets.moves positioned memcpyIn_use fun i => data.getD i 0
  subst size
  have written := (Prod.mk.inj moves.transfer).1
  rw [map_getD_range] at written
  refine ⟨_, rfl, ?_⟩
  have same : memcpyIn sg'.paSegs ptr data.length (fun i => data.getD i 0) =
      (writeMem sg'.paSegs ptr data, Buf.drop (fun i => data.getD i 0) data.length) := by
    rw [memcpyIn, map_getD_range]
  rw [same] at moves written
  exact ⟨moves.positioned, moves.left, moves.place, written, moves.clear⟩

/-- Where an assertion fails the copy was not clear. -/
theorem copy_large {p n m : Nat} {ps : List Nat} (positive : 0 < n) (asked : n ≤ m)
    (large : cbSegMax < p) : ¬ Clear m (p :: ps) := by
  rintro (none | ⟨small, -, -⟩)
  · omega
  · exact absurd large (Nat.not_lt_of_le small)

theorem sgCopyLoop_spec (dst : Positioned sgDst) (src : Positioned sgSrc) :
    (CopyClear cb sgDst sgSrc → Copies cb sgDst sgSrc) ∧
      (¬ CopyClear cb sgDst sgSrc → CopyFallsShort cb sgDst sgSrc) := by
  induction cb using Nat.strong_induction_on generalizing sgDst sgSrc with
  | _ cb ih =>
  by_cases done : cb = 0
  · subst done
    have run : sgCopyLoop 0 sgDst sgSrc = some (0, sgDst, sgSrc) := by
      rw [sgCopyLoop, if_pos rfl]
    refine ⟨fun _ => copies_nothing (Nat.zero_min _) run dst src, fun blocked => ?_⟩
    refine absurd ?_ blocked
    rw [CopyClear, Nat.zero_min, Nat.zero_min]
    exact ⟨clear_zero _, clear_zero _⟩
  have asked : 0 < cb := Nat.pos_of_ne_zero done
  by_cases empty : min (min sgDst.cbSegLeft cb) sgSrc.cbSegLeft = 0
  · -- one of the buffers is at an empty piece: the copy ends here
    have run : sgCopyLoop cb sgDst sgSrc = some (cb, sgDst, sgSrc) := by
      rw [sgCopyLoop, if_neg done]
      dsimp only
      rw [if_pos empty]
    rw [copyClear_of_empty asked empty]
    refine ⟨fun nothing => copies_nothing nothing run dst src, fun blocked r result => ?_⟩
    rw [run] at result
    cases result
    have less : copyAvailable cb sgDst sgSrc ≤ cb := Nat.min_le_left _ _
    dsimp only
    omega
  have positive := Nat.pos_of_ne_zero empty
  have dstFits : min (min sgDst.cbSegLeft cb) sgSrc.cbSegLeft ≤ sgDst.cbSegLeft := by omega
  have srcFits : min (min sgDst.cbSegLeft cb) sgSrc.cbSegLeft ≤ sgSrc.cbSegLeft := by omega
  have cbFits : min (min sgDst.cbSegLeft cb) sgSrc.cbSegLeft ≤ cb := by omega
  have dstRest := remaining_eq sgDst
  have srcRest := remaining_eq sgSrc
  have unfolded := sgCopyLoop.eq_1 cb sgDst sgSrc
  rw [if_neg done] at unfolded
  dsimp only at unfolded
  rw [if_neg empty] at unfolded
  generalize min (min sgDst.cbSegLeft cb) sgSrc.cbSegLeft = n at *
  have dstAsked : n ≤ min cb (remaining sgSrc) := by omega
  have srcAsked : n ≤ min cb (remaining sgDst) := by omega
  have refused : sgCopyLoop cb sgDst sgSrc = none → ¬ CopyClear cb sgDst sgSrc →
      (CopyClear cb sgDst sgSrc → Copies cb sgDst sgSrc) ∧
        (¬ CopyClear cb sgDst sgSrc → CopyFallsShort cb sgDst sgSrc) := by
    intro run blocked
    refine ⟨fun open' => absurd open' blocked, fun _ r result => ?_⟩
    rw [run] at result
    cases result
  rcases sgBufGet_cases dst n with ⟨atEnd, -⟩ | ⟨large, get⟩ | ⟨small, ptr, sgDst', get, gets⟩
  · omega
  · refine refused ?_ fun open' => copy_large positive dstAsked large open'.1
    rw [unfolded, get]
  rw [Nat.min_eq_left dstFits] at get gets
  rcases sgBufGet_cases src n with ⟨atEnd, -⟩ | ⟨large, get'⟩ | ⟨small', ptr', sgSrc', get', gets'⟩
  · omega
  · refine refused ?_ fun open' => copy_large positive srcAsked large open'.2
    rw [unfolded, get]
    dsimp only
    rw [get']
  rw [Nat.min_eq_left srcFits] at get' gets'
  -- both buffers hand out a chunk of `n` bytes
  obtain ⟨seg, found, fits⟩ := gets'.place
  have data : readMem sgSrc'.paSegs ptr' n =
      (sgSrc.paSegs.flatten.drop (position sgSrc)).take n := by
    rw [gets'.segs, readMem_eq found fits, gets'.address]
  have dataSize : (readMem sgSrc'.paSegs ptr' n).length = n := by
    have total := src.remaining_le
    rw [data, List.length_take, length_drop, position]
    omega
  obtain ⟨next, next_eq, positioned, left, place, written, clear⟩ := gets.moves_data dst dataSize
  have run : sgCopyLoop cb sgDst sgSrc = sgCopyLoop (cb - n) next sgSrc' := by
    rw [unfolded, get]
    dsimp only
    rw [get', next_eq]
  have left' := gets'.rest
  have dstClear : Clear _ (sgDst.cbSegLeft :: later sgDst) ↔ _ :=
    clear_cons positive dstFits dstAsked
  have srcClear : Clear _ (sgSrc.cbSegLeft :: later sgSrc) ↔ _ :=
    clear_cons positive srcFits srcAsked
  rw [← clear, and_iff_right small] at dstClear
  rw [← gets'.clear, and_iff_right small'] at srcClear
  have reached : CopyClear cb sgDst sgSrc ↔ CopyClear (cb - n) next sgSrc' := by
    rw [CopyClear, CopyClear]
    have dstAmount : min (cb - n) (remaining sgSrc') = min cb (remaining sgSrc) - n := by omega
    have srcAmount : min (cb - n) (remaining next) = min cb (remaining sgDst) - n := by omega
    rw [dstAmount, srcAmount]
    exact and_congr dstClear srcClear
  have rest : copyAvailable (cb - n) next sgSrc' + n = copyAvailable cb sgDst sgSrc := by
    rw [copyAvailable, copyAvailable]
    omega
  obtain ⟨whole, short⟩ := ih (cb - n) (by omega) positioned gets'.positioned
  rw [reached]
  constructor
  · intro open'
    obtain ⟨dst'', src'', result, dstPos, srcPos, dstSeen, srcSeen⟩ := whole open'
    have amount : copyAvailable cb sgDst sgSrc ≤ min (remaining sgDst) (remaining sgSrc) :=
      Nat.min_le_right _ _
    have total := src.remaining_le
    have total' := dst.remaining_le
    refine ⟨dst'', src'', ?_, dstPos, srcPos, ?_, ?_⟩
    · rw [run, result]
      congr 2
      omega
    · have taken : ((sgSrc.paSegs.flatten.drop (position sgSrc + n)).take
          (copyAvailable (cb - n) next sgSrc')).length = copyAvailable (cb - n) next sgSrc' := by
        rw [List.length_take, length_drop, position]
        omega
      have room : position sgDst + (readMem sgSrc'.paSegs ptr' n).length +
          ((sgSrc.paSegs.flatten.drop (position sgSrc + n)).take
            (copyAvailable (cb - n) next sgSrc')).length ≤ sgDst.paSegs.flatten.length := by
        rw [dataSize, taken, position]
        omega
      have both := splice_splice room
      rw [dataSize, data] at both
      rw [data] at written
      rw [dstSeen, written, place, gets'.moved src, gets'.segs, both, ← drop_drop, ← List.take_add,
        Nat.add_comm n, rest, Nat.add_assoc, Nat.add_comm n, rest]
    · rw [srcSeen, gets'.moved src, gets'.segs, Nat.add_assoc, Nat.add_comm n, rest]
  · intro blocked r result
    rw [run] at result
    have less := short blocked r result
    omega

end Copy

/-! ### The bytes ahead -/

/-- The bytes from the cursor on. -/
def ahead (sg : RtSgBuf) : List UInt8 := sg.paSegs.flatten.drop (position sg)

section Ahead

variable {sg sg' : RtSgBuf} {ptr : SegPtr} {n : Nat}

theorem length_ahead (positioned : Positioned sg) : (ahead sg).length = remaining sg := by
  have := positioned.remaining_le
  rw [ahead, length_drop, position]
  omega

/-- A chunk is what comes next. -/
theorem Gets.readMem (gets : Gets sg ptr n sg') : readMem sg.paSegs ptr n = (ahead sg).take n := by
  obtain ⟨seg, found, inside⟩ := gets.place
  rw [readMem_eq found inside, gets.address, ahead]

theorem Gets.ahead (gets : Gets sg ptr n sg') (positioned : Positioned sg) :
    ahead sg' = (ahead sg).drop n := by
  rw [VBox.Runtime.ahead, VBox.Runtime.ahead, gets.segs, gets.moved positioned, drop_drop]

/-- The pieces behind a chunk; at the end of the last segment an empty one stands for none. -/
theorem sgBufGet_pieces {cb : Nat} (got : sgBufGet sg cb = some (some ptr, n, sg')) :
    (cb < sg.cbSegLeft → pieces sg' = (sg.cbSegLeft - cb) :: later sg) ∧
      (sg.cbSegLeft ≤ cb → later sg ≠ [] → pieces sg' = later sg) := by
  rw [sgBufGet] at got
  split at got
  · cases got
  split at got
  · cases got
  dsimp only at got
  split at got
  · refine ⟨fun part => by omega, fun _ more => ?_⟩
    cases next : sg.paSegs[sg.idxSeg + 1]? with
    | none => exact absurd (later_of_none next) more
    | some seg =>
      rw [next] at got
      cases got
      rw [later_of_some next]
      rfl
  · refine ⟨fun _ => ?_, fun all => by omega⟩
    cases got
    rw [pieces, Nat.min_eq_left (by omega)]
    rfl

end Ahead

end VBox.Runtime
