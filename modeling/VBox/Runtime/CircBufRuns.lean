import VBox.Runtime.CircBuf

/-!
Runs of a reader and a writer on a circular buffer.

A party's block begins at its position and ends before the end of the buffer and before the other
party's position, a lap ahead for the writer. What the other party does in between only widens what
has been loaded before.
-/

namespace VBox.Runtime.CircBuf

open VBox.Lib List Function

variable {β : Type} {s t : State β} {cbSize : Nat}

/-! ### Sizes -/

theorem subSize_eq {a b : Nat} (order : b ≤ a) (bound : a < 2 ^ 64) : subSize a b = a - b := by
  rw [subSize]
  omega

theorem addSize_eq {a b : Nat} (bound : a + b < 2 ^ 64) : addSize a b = a + b :=
  Nat.mod_eq_of_lt bound

/-! ### Sides -/

theorem SideOk.mono {cbBuf pos limit limit' off : Nat} {side : Side}
    (ok : SideOk cbBuf pos limit off side) (wider : limit ≤ limit') :
    SideOk cbBuf pos limit' off side := by
  cases side with
  | idle => exact ok
  | sized => exact ⟨ok.1, Nat.le_trans ok.2 wider⟩
  | placed => exact ⟨ok.1, Nat.le_trans ok.2.1 wider, ok.2.2⟩
  | holding => exact ⟨ok.1, ok.2.1, Nat.le_trans ok.2.2.1 wider, ok.2.2.2⟩
  | releasing => exact ⟨ok.1, ok.2.1, ok.2.2.1, Nat.le_trans ok.2.2.2.1 wider, ok.2.2.2.2⟩
  | moved => exact ⟨ok.1, ok.2.1, Nat.le_trans ok.2.2.1 wider, ok.2.2.2⟩

/-- The bytes of a block have the places of the numbers from the position on. -/
theorem SideOk.held {cbBuf pos limit off : Nat} {side : Side} (ok : SideOk cbBuf pos limit off side)
    {i : Nat} (inside : i < side.held.2) : side.held.1 + i = (pos + i) % cbBuf ∧ i < limit := by
  have within {start size : Nat} (first : start = pos % cbBuf) (few : size ≤ limit)
      (fits : pos % cbBuf + size ≤ cbBuf) (inside : i < size) :
      start + i = (pos + i) % cbBuf ∧ i < limit := by
    rw [place_add (by omega), first]
    exact ⟨rfl, Nat.lt_of_lt_of_le inside few⟩
  cases side with
  | idle => exact absurd inside (Nat.not_lt_zero _)
  | sized => exact absurd inside (Nat.not_lt_zero _)
  | placed => exact absurd inside (Nat.not_lt_zero _)
  | holding => exact within ok.2.1 ok.2.2.1 ok.2.2.2 inside
  | releasing => exact within ok.2.2.1 ok.2.2.2.1 ok.2.2.2.2.1 inside
  | moved => exact within ok.2.1 ok.2.2.1 ok.2.2.2.1 inside

theorem Inv.apart (inv : Inv cbSize s) : Apart s := by
  intro i inside j inside' same
  obtain ⟨place, before⟩ := (inv.sides .reader).held inside
  obtain ⟨place', before'⟩ := (inv.sides .writer).held inside'
  rw [place, place'] at same
  have order := inv.order
  have room := inv.room
  simp only [State.at, State.limit, inv.size] at same before before'
  have meet := place_inj (show s.read.length + i ≤ s.written.length + j by omega) (by omega) same
  omega

theorem Inv.fifo (inv : Inv cbSize s) : Fifo cbSize s :=
  ⟨inv.apart, inv.used ▸ inv.room, inv.inOrder, inv.loads⟩

theorem Inv.available (inv : Inv cbSize s) (bound : cbSize < 2 ^ 64) (p : Party) :
    s.pBuf.available p = s.limit p := by
  have room := inv.room
  cases p with
  | reader => exact inv.used
  | writer =>
    rw [RtCircBuf.available, State.limit, inv.size, inv.used, subSize_eq room bound]

/-! ### Steps -/

section Steps

variable {p : Party} {start held done off : Nat} {side : Side}

section

variable (inv : Inv cbSize s)

include inv

/-- A step that only changes what a party knows. -/
theorem Inv.setSide (ok : SideOk cbSize (s.at p) (s.limit p) (s.pBuf.off p) side) :
    Inv cbSize (s.setSide p side) := by
  refine ⟨inv.positive, inv.size, inv.order, inv.room, inv.used, fun q => ?_, inv.holds,
    inv.inOrder, inv.loads⟩
  by_cases same : q = p
  · subst same
    have now : (s.setSide q side).side q = side := update_self _ _ _
    rw [now]
    exact ok
  · have now : (s.setSide p side).side q = s.side q := update_of_ne same _ _
    rw [now]
    exact inv.sides q

theorem Inv.move (bound : cbSize < 2 ^ 64) (at' : s.side p = .releasing start held done off) :
    Inv cbSize { s.setSide p (.moved start held done) with
      pBuf := s.pBuf.setOff (addSize off done % s.pBuf.cbBuf) p } := by
  have ok := inv.sides p
  rw [at'] at ok
  obtain ⟨place, rfl, first, few, fits, part⟩ := ok
  have sum : addSize (s.pBuf.off p) done % s.pBuf.cbBuf = (s.at p + done) % cbSize := by
    rw [addSize_eq (by omega), inv.size, place, Nat.mod_add_mod]
  rw [sum]
  have buffer (off : Nat) : (s.pBuf.setOff off p).cbBuf = s.pBuf.cbBuf ∧
      (s.pBuf.setOff off p).cbUsed = s.pBuf.cbUsed ∧
      (s.pBuf.setOff off p).pvBuf = s.pBuf.pvBuf := by
    cases p <;> exact ⟨rfl, rfl, rfl⟩
  obtain ⟨size, used, bytes⟩ := buffer ((s.at p + done) % cbSize)
  refine ⟨inv.positive, size.trans inv.size, inv.order, inv.room, used.trans inv.used, fun q => ?_,
    bytes.symm ▸ inv.holds, inv.inOrder, inv.loads⟩
  have limits : State.limit { s.setSide p (.moved start held done) with
      pBuf := s.pBuf.setOff ((s.at p + done) % cbSize) p } q = s.limit q := by
    cases q
    · rfl
    · exact congrArg (· - _) size
  have known : State.at { s.setSide p (.moved start held done) with
      pBuf := s.pBuf.setOff ((s.at p + done) % cbSize) p } q = s.at q := by cases q <;> rfl
  rw [limits, known]
  by_cases same : q = p
  · subst same
    have now : (s.setSide q (.moved start held done)).side q = .moved start held done :=
      update_self _ _ _
    have there : (s.pBuf.setOff ((s.at q + done) % cbSize) q).off q =
        (s.at q + done) % cbSize := by cases q <;> rfl
    simp only [now, there]
    exact ⟨rfl, first, few, fits, part⟩
  · have now : (s.setSide p (.moved start held done)).side q = s.side q := update_of_ne same _ _
    have there : (s.pBuf.setOff ((s.at p + done) % cbSize) p).off q = s.pBuf.off q := by
      cases p <;> cases q <;> first | rfl | exact absurd rfl same
    simp only [now, there]
    exact inv.sides q

/-- The reader is done with the bytes at the front. -/
theorem Inv.countRead (bound : cbSize < 2 ^ 64) (at' : s.side .reader = .moved start held done) :
    Inv cbSize { (s.setSide .reader .idle).done (s.pBuf.block start done) .reader with
      pBuf := { s.pBuf with cbUsed := s.pBuf.level done .reader } } := by
  have ok := inv.sides .reader
  rw [at'] at ok
  obtain ⟨place, first, few, fits, part⟩ := ok
  have room := inv.room
  have order := inv.order
  simp only [State.at, State.limit] at place first few fits
  have bytes : s.pBuf.block start done = (s.written.drop s.read.length).take done := by
    rw [← inv.holds.read (show s.read.length + done ≤ s.written.length by omega), RtCircBuf.block]
    refine map_congr_left fun i inside => ?_
    rw [mem_range] at inside
    rw [place_add (by omega), first]
  have count : (s.pBuf.block start done).length = done := by
    rw [RtCircBuf.block, length_map, length_range]
  have length : (s.read ++ s.pBuf.block start done).length = s.read.length + done := by
    rw [length_append, count]
  have whole : s.read ++ s.pBuf.block start done = s.written.take (s.read.length + done) := by
    rw [bytes, take_add, ← prefix_iff_eq_take.mp inv.inOrder]
  refine ⟨inv.positive, inv.size, ?_, ?_, ?_, fun q => ?_, inv.holds.later ?_, ?_, inv.loads⟩
  · show (s.read ++ s.pBuf.block start done).length ≤ s.written.length
    omega
  · show s.written.length - (s.read ++ s.pBuf.block start done).length ≤ cbSize
    omega
  · show subSize s.pBuf.cbUsed done = s.written.length - (s.read ++ s.pBuf.block start done).length
    rw [subSize_eq (by rw [inv.used]; omega) (by rw [inv.used]; omega), inv.used, length]
    omega
  · cases q with
    | reader =>
      show s.pBuf.offRead = (s.read ++ s.pBuf.block start done).length % cbSize
      rw [length]
      exact place
    | writer =>
      refine (inv.sides .writer).mono ?_
      show s.pBuf.cbBuf - (s.written.length - s.read.length) ≤
        s.pBuf.cbBuf - (s.written.length - (s.read ++ s.pBuf.block start done).length)
      omega
  · exact (Nat.le_add_right _ _).trans (Nat.le_of_eq length.symm)
  · show s.read ++ s.pBuf.block start done <+: s.written
    rw [whole]
    exact take_prefix _ _

/-- The writer is done with the bytes behind the last ones. -/
theorem Inv.countWritten (bound : cbSize < 2 ^ 64) (at' : s.side .writer = .moved start held done) :
    Inv cbSize { (s.setSide .writer .idle).done (s.pBuf.block start done) .writer with
      pBuf := { s.pBuf with cbUsed := s.pBuf.level done .writer } } := by
  have ok := inv.sides .writer
  rw [at'] at ok
  obtain ⟨place, first, few, fits, part⟩ := ok
  have room := inv.room
  have order := inv.order
  simp only [State.at, State.limit, inv.size] at place first few fits
  have count : (s.pBuf.block start done).length = done := by
    rw [RtCircBuf.block, length_map, length_range]
  have length : (s.written ++ s.pBuf.block start done).length = s.written.length + done := by
    rw [length_append, count]
  refine ⟨inv.positive, inv.size, ?_, ?_, ?_, fun q => ?_, ?_, ?_, ?_⟩
  · show s.read.length ≤ (s.written ++ s.pBuf.block start done).length
    omega
  · show (s.written ++ s.pBuf.block start done).length - s.read.length ≤ cbSize
    omega
  · show addSize s.pBuf.cbUsed done = (s.written ++ s.pBuf.block start done).length - s.read.length
    rw [addSize_eq (by rw [inv.used]; omega), inv.used, length]
    omega
  · cases q with
    | reader =>
      refine (inv.sides .reader).mono ?_
      show s.written.length - s.read.length ≤
        (s.written ++ s.pBuf.block start done).length - s.read.length
      omega
    | writer =>
      show s.pBuf.offWrite = (s.written ++ s.pBuf.block start done).length % cbSize
      rw [length]
      exact place
  · intro i (inside : i < (s.written ++ s.pBuf.block start done).length) (above : s.read.length ≤ i)
    show s.pBuf.pvBuf (i % cbSize) = (s.written ++ s.pBuf.block start done)[i]
    by_cases old : i < s.written.length
    · rw [getElem_append_left old]
      exact inv.holds i old above
    · rw [getElem_append_right (Nat.not_lt.mp old)]
      have below : i - s.written.length < done := by omega
      simp only [RtCircBuf.block, getElem_map, getElem_range]
      rw [first, ← place_add (by omega), Nat.add_sub_cancel' (Nat.not_lt.mp old)]
  · exact inv.inOrder.trans (prefix_append _ _)
  · intro i b loaded
    show (s.written ++ s.pBuf.block start done)[i]? = some b
    have before := inv.loads i b loaded
    obtain ⟨inside, -⟩ := List.getElem?_eq_some_iff.mp before
    rw [getElem?_append_left inside, before]

theorem Inv.step (bound : cbSize < 2 ^ 64) {a : Act β} (taken : step s a = some t) :
    Inv cbSize t := by
  cases a with
  | acquire p cbReqSize =>
    simp only [CircBuf.step] at taken
    split at taken
    · rename_i at'
      have ok := inv.sides p
      rw [at'] at ok
      split at taken <;> cases taken
      · exact inv.setSide ⟨ok, Nat.le_of_eq (inv.available bound p)⟩
      · exact inv
    · cases taken
  | size p =>
    simp only [CircBuf.step] at taken
    split at taken
    · rename_i cbReqSize cbAvailable at'
      have ok := inv.sides p
      rw [at'] at ok
      obtain ⟨place, few⟩ := ok
      cases taken
      refine inv.setSide ?_
      split
      · rename_i more
        have below : s.pBuf.off p < cbSize := place ▸ Nat.mod_lt _ inv.positive
        rw [inv.size, subSize_eq (Nat.le_of_lt below) bound]
        exact ⟨place, by omega, by omega⟩
      · exact place
    · cases taken
  | place p =>
    simp only [CircBuf.step] at taken
    split at taken
    · rename_i cbHeld at'
      have ok := inv.sides p
      rw [at'] at ok
      obtain ⟨place, few, fits⟩ := ok
      cases taken
      exact inv.setSide ⟨place, place, few, fits⟩
    · cases taken
  | load i =>
    simp only [CircBuf.step] at taken
    split at taken
    · rename_i start held at'
      split at taken <;> cases taken
      rename_i inside
      have ok := inv.sides .reader
      have block : i < (s.side .reader).held.2 := by rw [at']; exact inside
      obtain ⟨place, before⟩ := ok.held block
      rw [at'] at place
      have below : s.read.length + i < s.written.length := by
        have : i < s.written.length - s.read.length := before
        omega
      refine ⟨inv.positive, inv.size, inv.order, inv.room, inv.used, inv.sides, inv.holds,
        inv.inOrder, ?_⟩
      intro j b loaded
      obtain old | new := mem_append.mp loaded
      · exact inv.loads j b old
      · cases mem_singleton.mp new
        have byte := inv.holds _ below (Nat.le_add_right _ _)
        rw [getElem?_eq_getElem below, ← byte]
        exact congrArg (some <| s.pBuf.pvBuf ·) place.symm
    · cases taken
  | store i b =>
    simp only [CircBuf.step] at taken
    split at taken
    · rename_i start held at'
      split at taken <;> cases taken
      rename_i inside
      have block : i < (s.side .writer).held.2 := by rw [at']; exact inside
      obtain ⟨place, before⟩ := (inv.sides .writer).held block
      rw [at'] at place
      refine ⟨inv.positive, inv.size, inv.order, inv.room, inv.used, inv.sides, ?_,
        inv.inOrder, inv.loads⟩
      intro j (old : j < s.written.length) (above : s.read.length ≤ j)
      have other : j % cbSize ≠ start + i := by
        intro same
        have free : i < s.pBuf.cbBuf - (s.written.length - s.read.length) := before
        have size := inv.size
        have order := inv.order
        have meet := place_inj (show j ≤ s.written.length + i by omega) (by omega)
          (same.trans place)
        omega
      exact (update_of_ne other _ _).trans (inv.holds j old above)
    · cases taken
  | release p cbDone =>
    simp only [CircBuf.step] at taken
    have ok := inv.sides p
    split at taken
    · rename_i at'
      rw [at'] at ok
      split at taken <;> cases taken
      exact inv.setSide ⟨ok, rfl, ok, Nat.zero_le _,
        Nat.le_of_lt (Nat.mod_lt _ inv.positive), Nat.le_refl _⟩
    · rename_i start held at'
      rw [at'] at ok
      obtain ⟨place, first, few, fits⟩ := ok
      split at taken <;> cases taken
      rename_i part
      exact inv.setSide ⟨place, rfl, first, few, fits, part⟩
    · cases taken
  | move p =>
    simp only [CircBuf.step] at taken
    split at taken
    · rename_i at'
      cases taken
      exact inv.move bound at'
    · cases taken
  | count p =>
    simp only [CircBuf.step] at taken
    split at taken
    · rename_i at'
      cases taken
      cases p
      · exact inv.countRead bound at'
      · exact inv.countWritten bound at'
    · cases taken

end

end Steps

/-! ### Runs -/

/-- Every run of a reader and a writer on a new buffer is one of a queue. -/
theorem run_fifo {cbSize : UInt64} {pvBuf : Option (Nat → β)} {acts : List (Act β)}
    (created : rtCircBufCreate cbSize pvBuf = some s)
    (run : Run (fun s a t => step s a = some t) s acts t) : Fifo cbSize.toNat t := by
  have start : Inv cbSize.toNat s := by
    rw [rtCircBufCreate] at created
    split at created
    · rename_i positive
      obtain ⟨bytes, -, rfl⟩ := Option.map_eq_some_iff.mp created
      exact ⟨UInt64.lt_iff_toNat_lt.mp positive, rfl, Nat.le_refl _, Nat.zero_le _, rfl,
        fun p => by cases p <;> exact (Nat.zero_mod _).symm, Holds.nil, prefix_refl _, by simp⟩
    · cases created
  exact (run.invariant (Inv cbSize.toNat) (fun inv taken => inv.step cbSize.toNat_lt taken)
    start).fifo

def emptyBuf : State UInt8 := ⟨⟨0, 0, 0, 4, fun _ => 0⟩, fun _ => .idle, [], [], []⟩

/-- Two bytes are stored, one is released, and the reader loads it from the block it acquires. -/
def writeThenRead : List (Act UInt8) :=
  [.acquire .writer 3, .size .writer, .place .writer, .store 0 7, .store 1 8, .release .writer 1,
    .move .writer, .acquire .reader 9, .count .writer, .acquire .reader 9, .size .reader,
    .place .reader, .load 0]

theorem run_fifo_writeThenRead :
    ∃ t : State UInt8, Fifo (4 : UInt64).toNat t ∧ t.loads = [(0, 7)] := by
  obtain ⟨t, run, loads⟩ := Run.exists_of_follow (fun _ _ => True) step emptyBuf writeThenRead
    (fun t => t.loads = [(0, 7)]) (by decide)
  have created : rtCircBufCreate 4 (some fun _ => 0) = some emptyBuf := rfl
  exact ⟨t, run_fifo created (run.mono fun taken => taken.2), loads⟩

end VBox.Runtime.CircBuf
