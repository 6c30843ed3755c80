import VBox.Lib.Lap
import VBox.Net.IntNetRing

/-!
How frames lie in the ring buffer.

Frames follow one another at running positions; `phys` gives the offset of a position. A
frame whose data is at the start of the buffer skips to the next lap for it.
-/

namespace VBox.Net

open VBox.Lib

variable {start size : Nat} {mem mem' data : Buf} {off n i : Nat}

/-! ### Memory -/

theorem put_of_mem (low : off ≤ i) (high : i < off + n) : put mem off n data i = data (i - off) :=
  if_pos ⟨low, high⟩

theorem put_of_not_mem (outside : i < off ∨ off + n ≤ i) : put mem off n data i = mem i :=
  if_neg (by omega)

theorem get_congr {off' : Nat} (agree : ∀ i < n, mem' (off' + i) = mem (off + i)) :
    get mem' off' n = get mem off n := by
  rw [get, get]
  congr 1
  funext i
  exact agree i i.isLt

theorem get_put : get (put mem off n data) off n = get data 0 n := by
  refine get_congr fun i below => ?_
  rw [put_of_mem (Nat.le_add_right _ _) (Nat.add_lt_add_left below _), Nat.add_sub_cancel_left,
    Nat.zero_add]

theorem hdrAt_congr (agree : ∀ i < 8, mem' (off + i) = mem (off + i)) :
    hdrAt mem' off = hdrAt mem off := by
  have first : leNat 4 (mem'.drop off) = leNat 4 (mem.drop off) :=
    leNat_congr fun i below => agree i (by omega)
  have second : leNat 4 (mem'.drop (off + 4)) = leNat 4 (mem.drop (off + 4)) := by
    refine leNat_congr fun i below => ?_
    rw [Buf.drop_apply, Buf.drop_apply, Nat.add_assoc]
    exact agree (4 + i) (by omega)
  rw [hdrAt, hdrAt, first, second]

theorem hdrAt_putHdr {h : IntNetHdr} (type : h.u8Type < 256) (frame : h.offFrame < 2 ^ 32) :
    hdrAt (putHdr mem off h) off = ⟨h.u8Type, h.cbFrame % 2 ^ 24, h.offFrame⟩ := by
  have first : leNat 4 ((putHdr mem off h).drop off) = h.cbFrame % 2 ^ 24 + h.u8Type * 2 ^ 24 := by
    have written : leNat 4 ((putHdr mem off h).drop off) =
        leNat 4 (leByte (h.cbFrame % 2 ^ 24 + h.u8Type * 2 ^ 24)) := by
      refine leNat_congr fun i below => ?_
      rw [Buf.drop_apply, putHdr, put_of_mem (Nat.le_add_right _ _)
        (Nat.add_lt_add_left (Nat.lt_trans below (by decide)) _), Nat.add_sub_cancel_left,
        IntNetHdr.bytes, if_pos below]
    rw [written, leNat_leByte]
    omega
  have second : leNat 4 ((putHdr mem off h).drop (off + 4)) = h.offFrame := by
    have written : leNat 4 ((putHdr mem off h).drop (off + 4)) = leNat 4 (leByte h.offFrame) := by
      refine leNat_congr fun i below => ?_
      have inside : 4 + i < cbHdr := Nat.add_lt_add_left below 4
      rw [Buf.drop_apply, Nat.add_assoc, putHdr, put_of_mem (Nat.le_add_right _ _)
        (Nat.add_lt_add_left inside _), Nat.add_sub_cancel_left, IntNetHdr.bytes,
        if_neg (by omega), Nat.add_sub_cancel_left]
    rw [written, leNat_leByte]
    exact Nat.mod_eq_of_lt frame
  rw [hdrAt, first, second, IntNetHdr.mk.injEq]
  exact ⟨by omega, by omega, rfl⟩

theorem align32_spec {x : Nat} (small : x < 2 ^ 31) :
    x ≤ align32 x ∧ align32 x < x + 8 ∧ 8 ∣ align32 x := by
  rw [align32]
  omega

/-! ### Positions -/

/-- A ring from the offset `start` on. -/
structure Shape (start size : Nat) : Prop where
  startAligned : 8 ∣ start
  sizeAligned : 8 ∣ size
  pos : 0 < size
  small : start + size < 2 ^ 32

def phys (start size x : Nat) : Nat := start + x % size

theorem phys_lt (shape : Shape start size) (x : Nat) : phys start size x < start + size :=
  Nat.add_lt_add_left (Nat.mod_lt x shape.pos) start

theorem phys_inj {x y : Nat} (order : x ≤ y) (near : y < x + size)
    (same : phys start size x = phys start size y) : x = y :=
  place_inj order near (Nat.add_left_cancel same)

/-- An aligned position has room for a header behind it. -/
theorem room_of_aligned (shape : Shape start size) {x : Nat} (aligned : 8 ∣ x) :
    x % size + 8 ≤ size ∧ 8 ∣ x % size := by
  have below := Nat.mod_lt x shape.pos
  have whole : 8 ∣ x % size := (Nat.dvd_mod_iff shape.sizeAligned).mpr aligned
  have size_aligned := shape.sizeAligned
  omega

/-- What is put at some positions leaves the others of a lap as they were. -/
theorem put_other {c lo x : Nat} (placed : ∀ j < n, off + j = phys start size (c + j))
    (low : lo ≤ c) (high : c + n ≤ lo + size) (above : lo ≤ x) (below : x < lo + size)
    (outside : x < c ∨ c + n ≤ x) :
    put mem off n data (phys start size x) = mem (phys start size x) := by
  by_cases inside : off ≤ phys start size x ∧ phys start size x < off + n
  · obtain ⟨j, found⟩ := Nat.exists_eq_add_of_le inside.1
    have small : j < n := by omega
    rw [placed j small] at found
    rcases Nat.le_total x (c + j) with before | after
    · have same := phys_inj before (by omega) found
      omega
    · have same := phys_inj after (by omega) found.symm
      omega
  · exact put_of_not_mem (by omega)

/-! ### Frames at positions -/

/-- A frame: the position of its header, whether its data is at the start of the buffer, and
what the header says. -/
structure Item where
  pos : Nat
  wrapped : Bool
  u8Type : Nat
  cbFrame : Nat

namespace Item

variable (it : Item)

/-- The bytes allocated for the data. -/
def cb : Nat := align32 it.cbFrame

/-- The position of the data. -/
def dataPos (size : Nat) : Nat := if it.wrapped then nextLap size it.pos else it.pos + 8

/-- The position behind the frame. -/
def stop (size : Nat) : Nat := it.dataPos size + it.cb

/-- The offset of the data. -/
def dataOff (start size : Nat) : Nat := if it.wrapped then start else phys start size it.pos + 8

structure Fits (size : Nat) : Prop where
  aligned : 8 ∣ it.pos
  type : it.u8Type < 256
  small : it.cbFrame < 2 ^ 24
  room : if it.wrapped then it.cb < size else it.pos % size + 8 + it.cb ≤ size

/-- The header is in memory. -/
def Headed (start size : Nat) (mem : Buf) : Prop :=
  hdrAt mem (phys start size it.pos) =
    ⟨it.u8Type, it.cbFrame, sub32 (it.dataOff start size) (phys start size it.pos)⟩

/-- The frame in memory. -/
def frame (start size : Nat) (mem : Buf) : Frame :=
  ⟨it.u8Type, get mem (it.dataOff start size) it.cbFrame⟩

variable {it}

theorem Fits.cb_spec (fits : it.Fits size) :
    it.cbFrame ≤ it.cb ∧ it.cb < it.cbFrame + 8 ∧ 8 ∣ it.cb :=
  align32_spec (Nat.lt_trans fits.small (by decide))

section

variable (shape : Shape start size) (fits : it.Fits size)

include shape fits

theorem Fits.header : it.pos + 8 ≤ it.dataPos size := by
  obtain ⟨room, -⟩ := room_of_aligned shape fits.aligned
  rw [dataPos]
  split
  · have below := Nat.mod_le it.pos size
    rw [nextLap]
    omega
  · exact Nat.le_refl _

theorem Fits.stop_aligned : 8 ∣ it.stop size := by
  obtain ⟨-, place⟩ := room_of_aligned shape fits.aligned
  obtain ⟨-, -, whole⟩ := fits.cb_spec
  have aligned := fits.aligned
  have size_aligned := shape.sizeAligned
  have below := Nat.mod_le it.pos size
  rw [stop, dataPos]
  split
  · rw [nextLap]
    omega
  · omega

theorem Fits.header_phys (below : i < 8) :
    phys start size it.pos + i = phys start size (it.pos + i) := by
  obtain ⟨room, -⟩ := room_of_aligned shape fits.aligned
  rw [phys, phys, place_add (by omega), Nat.add_assoc]

end

theorem Fits.data_phys (fits : it.Fits size) (below : i < it.cb) :
    it.dataOff start size + i = phys start size (it.dataPos size + i) := by
  have room := fits.room
  rw [dataOff, dataPos]
  split at room
  case isTrue wrapped =>
    rw [if_pos wrapped, if_pos wrapped, phys, nextLap_add_place (by omega)]
  case isFalse inline =>
    rw [if_neg inline, if_neg inline, Nat.add_assoc it.pos, phys, phys, place_add (by omega)]
    omega

theorem Fits.off_end (start : Nat) (fits : it.Fits size) :
    it.dataOff start size + it.cb ≤ start + size := by
  have room := fits.room
  rw [dataOff]
  split at room
  case isTrue wrapped =>
    rw [if_pos wrapped]
    omega
  case isFalse inline =>
    rw [if_neg inline, phys]
    omega

section

variable (shape : Shape start size) (fits : it.Fits size)

include shape fits

/-- Behind the last place of the buffer comes the first. -/
theorem Fits.stop_phys :
    (if start + size ≤ it.dataOff start size + it.cb then start else it.dataOff start size + it.cb) =
      phys start size (it.stop size) := by
  have room := fits.room
  rw [dataOff, stop, dataPos]
  split at room
  case isTrue wrapped =>
    rw [if_pos wrapped, if_pos wrapped, phys, nextLap_add_place room, if_neg (by omega)]
  case isFalse inline =>
    rw [if_neg inline, if_neg inline, phys, phys, Nat.add_assoc it.pos]
    rcases Nat.lt_or_ge (it.pos % size + (8 + it.cb)) size with inside | last
    · rw [place_add inside, if_neg (by omega)]
      omega
    · rw [place_add_end (by omega), if_pos (by omega), Nat.add_zero]

theorem Headed.framePtr (headed : it.Headed start size mem) :
    framePtr mem (phys start size it.pos) = it.dataOff start size := by
  have small := shape.small
  have below := fits.off_end start
  have low := phys_lt shape it.pos
  have header : hdrAt mem (phys start size it.pos) = _ := headed
  rw [Net.framePtr, header]
  dsimp only
  rw [sub32]
  omega

/-- What the reader skips to, and a commit goes on to. -/
theorem Headed.next (headed : it.Headed start size mem) {r : IntNetRingBuf}
    (first : r.offStart = start) (last : r.offEnd = start + size) (same : r.mem = mem) :
    r.commitFrame (phys start size it.pos) = phys start size (it.stop size) ∧
      (r.offReadX = phys start size it.pos → r.skipFrame = phys start size (it.stop size)) := by
  have small := shape.small
  have below := fits.off_end start
  have low := phys_lt shape it.pos
  have header : hdrAt r.mem (phys start size it.pos) = _ := same ▸ headed
  have wraps : r.wrap (it.dataOff start size + it.cb) = phys start size (it.stop size) := by
    rw [IntNetRingBuf.wrap, last, first]
    exact fits.stop_phys shape
  rw [← wraps]
  constructor
  · rw [IntNetRingBuf.commitFrame, same, headed.framePtr shape fits, ← same, header]
    dsimp only
    rw [← cb, Nat.mod_eq_of_lt (by omega)]
  · intro reading
    obtain ⟨above, tight, whole⟩ := fits.cb_spec
    have whole_off : 8 ∣ it.dataOff start size := by
      have place := (room_of_aligned shape fits.aligned).2
      have aligned := shape.startAligned
      rw [dataOff, phys]
      split <;> omega
    have start_aligned := shape.startAligned
    have size_aligned := shape.sizeAligned
    rw [IntNetRingBuf.skipFrame, reading, header]
    dsimp only
    congr 1
    rw [align32, sub32]
    omega

theorem Headed.frameAt (headed : it.Headed start size mem) :
    frameAt mem (phys start size it.pos) (hdrAt mem (phys start size it.pos)).cbFrame =
      it.frame start size mem := by
  have header : hdrAt mem (phys start size it.pos) = _ := headed
  rw [Net.frameAt, headed.framePtr shape fits, header, frame]

theorem Headed.same (headed : it.Headed start size mem) (same : ∀ x, it.pos ≤ x → x < it.pos + 8 →
      mem' (phys start size x) = mem (phys start size x)) : it.Headed start size mem' := by
  have kept : hdrAt mem' (phys start size it.pos) = hdrAt mem (phys start size it.pos) := by
    refine hdrAt_congr fun i below => ?_
    rw [fits.header_phys shape below]
    exact same _ (by omega) (by omega)
  rw [Headed, kept]
  exact headed

end

theorem frame_same (fits : it.Fits size) (same : ∀ x, it.dataPos size ≤ x → x < it.stop size →
      mem' (phys start size x) = mem (phys start size x)) :
    it.frame start size mem' = it.frame start size mem := by
  obtain ⟨small, -, -⟩ := fits.cb_spec
  rw [frame, frame]
  congr 1
  refine get_congr fun i below => ?_
  rw [fits.data_phys (by omega)]
  exact same _ (by omega) (by rw [stop]; omega)

end Item

/-! ### Frames in a row -/

/-- The frames follow one another between two positions. -/
def Chain (size : Nat) : Nat → List Item → Nat → Prop
  | p, [], q => p = q
  | p, it :: items, q => it.pos = p ∧ it.Fits size ∧ Chain size (it.stop size) items q

namespace Chain

variable {items items' : List Item} {it : Item} {p q s : Nat}

theorem append (first : Chain size p items q) (second : Chain size q items' s) :
    Chain size p (items ++ items') s := by
  induction items generalizing p with
  | nil => exact first ▸ second
  | cons it items ih => exact ⟨first.1, first.2.1, ih first.2.2⟩

theorem single (fits : it.Fits size) : Chain size it.pos [it] (it.stop size) := ⟨rfl, fits, rfl⟩

section

variable (shape : Shape start size) (chain : Chain size p items q)

include shape chain

theorem le : p ≤ q := by
  induction items generalizing p with
  | nil => exact Nat.le_of_eq chain
  | cons it items ih =>
    obtain ⟨rfl, fits, rest⟩ := chain
    have header := fits.header shape
    have more := ih rest
    rw [Item.stop] at more
    omega

theorem inside (member : it ∈ items) : it.Fits size ∧ p ≤ it.pos ∧ it.stop size ≤ q := by
  induction items generalizing p with
  | nil => cases member
  | cons head items ih =>
    obtain ⟨rfl, fits, rest⟩ := chain
    rcases List.mem_cons.mp member with rfl | later
    · exact ⟨fits, Nat.le_refl _, rest.le shape⟩
    · obtain ⟨fits', low, high⟩ := ih rest later
      have header := fits.header shape
      rw [Item.stop] at low
      exact ⟨fits', by omega, high⟩

/-- Each frame ends before the later ones start. -/
theorem pairwise : items.Pairwise fun a b => a.stop size ≤ b.pos := by
  induction items generalizing p with
  | nil => exact .nil
  | cons it items ih =>
    obtain ⟨-, -, rest⟩ := chain
    exact .cons (fun later member => (rest.inside shape member).2.1) (ih rest)

theorem apart {a b : Item} (first : a ∈ items) (second : b ∈ items) (other : a ≠ b) :
    a.stop size ≤ b.pos ∨ b.stop size ≤ a.pos := by
  induction items generalizing p with
  | nil => cases first
  | cons head items ih =>
    obtain ⟨-, -, rest⟩ := chain
    rcases List.mem_cons.mp first with rfl | later
    · rcases List.mem_cons.mp second with rfl | later'
      · exact absurd rfl other
      · exact .inl (rest.inside shape later').2.1
    · rcases List.mem_cons.mp second with rfl | later'
      · exact .inr (rest.inside shape later).2.1
      · exact ih rest later later'

end

theorem stop_aligned (shape : Shape start size) (aligned : 8 ∣ p) (chain : Chain size p items q) :
    8 ∣ q := by
  induction items generalizing p with
  | nil => exact chain ▸ aligned
  | cons it items ih =>
    obtain ⟨rfl, fits, rest⟩ := chain
    exact ih (fits.stop_aligned shape) rest

end Chain

end VBox.Net
