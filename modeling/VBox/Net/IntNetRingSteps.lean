import VBox.Net.IntNetRingLayout

/-!
The steps of the reader and the writers keep the frames in order.

`Layout` gives the running positions of the three offsets, the frames between the reader and
the last commit, and the ones that are allocated behind it. The ring is never full: a writer
that ends up a whole lap in front of the reader would look like one with nothing to read.
-/

namespace VBox.Net

open VBox.Lib List

variable {start size : Nat}

/-! ### Where a frame fits -/

/-- The frame a writer gets, and when it takes the last free place. -/
theorem fit_spec (shape : Shape start size) {r : IntNetRingBuf} (first : r.offStart = start)
    (last : r.offEnd = start + size) {R W u8Type cbFrame offNew offFrame : Nat} (order : R ≤ W)
    (near : W < R + size) (aligned : 8 ∣ W) (type : u8Type < 256) (small : cbFrame < 2 ^ 24)
    (fit : r.fit (align32 cbFrame) (phys start size W) (phys start size R) =
      some (offNew, offFrame)) :
    ∃ it : Item, it.pos = W ∧ it.u8Type = u8Type ∧ it.cbFrame = cbFrame ∧ it.Fits size ∧
      offNew = phys start size (it.stop size) ∧
      offFrame = sub32 (it.dataOff start size) (phys start size W) ∧ it.stop size ≤ R + size ∧
      (it.stop size = R + size → phys start size R = start ∧ phys start size R ≤ phys start size W ∧
        phys start size W + align32 cbFrame + cbHdr = start + size) := by
  obtain ⟨room, place⟩ := room_of_aligned shape aligned
  obtain ⟨-, -, whole⟩ := align32_spec (Nat.lt_trans small (by decide) : cbFrame < 2 ^ 31)
  have pos := shape.pos
  have low := shape.small
  have belowR := Nat.mod_lt R pos
  have leR := Nat.mod_le R size
  have leW := Nat.mod_le W size
  have eight : cbHdr = 8 := rfl
  have splitR : phys start size R = start + R % size := rfl
  have splitW : phys start size W = start + W % size := rfl
  rw [IntNetRingBuf.fit, first, last] at fit
  -- a frame behind its header, in the lap of the writer
  have inline : W % size + 8 + align32 cbFrame ≤ size →
      Item.Fits ⟨W, false, u8Type, cbFrame⟩ size := fun fits => ⟨aligned, type, small, fits⟩
  have stop : Item.stop ⟨W, false, u8Type, cbFrame⟩ size = W + 8 + align32 cbFrame := rfl
  have after : Item.dataOff ⟨W, false, u8Type, cbFrame⟩ start size = phys start size W + 8 := rfl
  rcases lap_cases order near with ⟨behind, lap⟩ | ⟨ahead, lap⟩
  · rw [if_pos (by omega)] at fit
    split at fit
    case isTrue ends =>
      rw [sub32] at ends
      have fits := inline (by omega)
      have next := fits.stop_phys shape
      rw [Option.some.injEq, Prod.mk.injEq] at fit
      refine ⟨_, rfl, rfl, rfl, fits, ?_, ?_, ?_, ?_⟩
      · rw [← next, ← fit.1, IntNetRingBuf.wrap, first, last, after, Item.cb,
          Nat.mod_eq_of_lt (by omega)]
        have same : phys start size W + align32 cbFrame + cbHdr =
            phys start size W + 8 + align32 cbFrame := by omega
        rw [same]
      · rw [← fit.2, after, sub32]
        omega
      · rw [stop]
        omega
      · rw [stop]
        omega
    case isFalse =>
      split at fit
      case isTrue fits =>
        rw [sub32] at fits
        have wrapped : Item.Fits ⟨W, true, u8Type, cbFrame⟩ size :=
          ⟨aligned, type, small, show align32 cbFrame < size by omega⟩
        have next := wrapped.stop_phys shape
        have atStart : Item.dataOff ⟨W, true, u8Type, cbFrame⟩ start size = start := rfl
        have stop' : Item.stop ⟨W, true, u8Type, cbFrame⟩ size =
            W - W % size + size + align32 cbFrame := rfl
        rw [Option.some.injEq, Prod.mk.injEq] at fit
        refine ⟨_, rfl, rfl, rfl, wrapped, ?_, ?_, ?_, ?_⟩
        · rw [← next, ← fit.1, atStart, Item.cb, if_neg (by dsimp only; omega),
            Nat.mod_eq_of_lt (by omega)]
        · rw [← fit.2, atStart]
        · rw [stop']
          omega
        · rw [stop']
          omega
      case isFalse => cases fit
  · rw [nextLap] at lap
    rw [if_neg (by omega)] at fit
    split at fit
    case isTrue between =>
      rw [sub32] at between
      have fits := inline (by omega)
      have next := fits.stop_phys shape
      rw [Option.some.injEq, Prod.mk.injEq] at fit
      refine ⟨_, rfl, rfl, rfl, fits, ?_, ?_, ?_, ?_⟩
      · rw [← next, ← fit.1, after, Item.cb, if_neg (by dsimp only; omega),
          Nat.mod_eq_of_lt (by omega)]
        dsimp only
        omega
      · rw [← fit.2, after, sub32]
        omega
      · rw [stop]
        omega
      · rw [stop]
        omega
    case isFalse => cases fit

/-! ### The invariant -/

/-- The frames that are not padding, as they are in memory. -/
def frames (start size : Nat) (mem : Buf) (items : List Item) : List Frame :=
  (items.map (·.frame start size mem)).filter (·.u8Type ≠ typePadding)

/-- The committed frames the reader has not delivered. -/
def ReaderPc.left : ReaderPc → List Item → List Item
  | .skip _, items => items.tail
  | _, items => items

def ReaderPc.Ok (start size : Nat) (items : List Item) : ReaderPc → Prop
  | .idle => True
  | .found => items ≠ []
  | .skip offReadNew => ∃ it rest, items = it :: rest ∧ offReadNew = phys start size (it.stop size)

/-- The size of the frame, before it is stored in 32 and 24 bits. -/
def RingRequest.total : RingRequest → Nat
  | .allocateFrame cbFrame => cbFrame
  | .allocateGsoFrame cbFrame _ => cbFrame + cbGso
  | .writeFrame _ cbFrame => cbFrame

def RingRequest.Alone : RingRequest → List Item → Prop
  | .writeFrame _ _, items => items = []
  | _, _ => True

def WriterPc.Ok (start size R W : Nat) (mem : Buf) (alloc : List Item) : WriterPc → Prop
  | .idle => True
  | .readRead request offWriteInt =>
      request.total < 2 ^ 24 ∧ request.Alone alloc ∧ offWriteInt = phys start size W
  | .swap request offWriteInt offRead =>
      request.total < 2 ^ 24 ∧ request.Alone alloc ∧ offWriteInt = phys start size W ∧
        ∃ R' ≤ R, W < R' + size ∧ offRead = phys start size R'
  | .publish offNew frame =>
      offNew = phys start size W ∧ ∃ it, alloc = [it] ∧ it.frame start size mem = frame

structure RingMachine.Layout (m : RingMachine) (start size R C W : Nat)
    (unread alloc : List Item) : Prop where
  shape : Shape start size
  offStart : m.ring.offStart = start
  offEnd : m.ring.offEnd = start + size
  offReadX : m.ring.offReadX = phys start size R
  offWriteCom : m.ring.offWriteCom = phys start size C
  offWriteInt : m.ring.offWriteInt = phys start size W
  aligned : 8 ∣ R
  near : W < R + size
  readable : Chain size R unread C
  pending : Chain size C alloc W
  headed : ∀ it ∈ unread ++ alloc, it.Headed start size m.ring.mem
  proper : ∀ it ∈ alloc, it.u8Type ≠ typePadding
  allocated : m.allocated = alloc.map fun it => phys start size it.pos
  committed : m.committed = m.delivered ++ frames start size m.ring.mem (m.reader.left unread)
  reader : m.reader.Ok start size unread
  writer : m.writer.Ok start size R W m.ring.mem alloc

section Frames

variable {mem mem' : Buf} {items : List Item} {it : Item} {p q : Nat}

theorem frames_append (items items' : List Item) : frames start size mem (items ++ items') =
    frames start size mem items ++ frames start size mem items' := by
  rw [frames, map_append, filter_append]
  rfl

theorem frames_single (proper : it.u8Type ≠ typePadding) :
    frames start size mem [it] = [it.frame start size mem] :=
  filter_cons_of_pos (decide_eq_true proper)

theorem frames_padding (padding : it.u8Type = typePadding) : frames start size mem [it] = [] := by
  refine filter_cons_of_neg ?_
  rw [decide_eq_true_eq, not_not]
  exact padding

theorem frames_same (fits : ∀ it ∈ items, it.Fits size)
    (same : ∀ it ∈ items, ∀ x, it.dataPos size ≤ x → x < it.stop size →
      mem' (phys start size x) = mem (phys start size x)) :
    frames start size mem' items = frames start size mem items := by
  rw [frames, frames]
  congr 1
  exact map_congr_left fun it member => Item.frame_same (fits it member) (same it member)

theorem mem_left {reader : ReaderPc} (member : it ∈ reader.left items) : it ∈ items := by
  cases reader with
  | idle => exact member
  | found => exact member
  | skip off => exact mem_of_mem_tail member

section

variable {reader : ReaderPc} (okay : reader.Ok start size items) (items' : List Item)

include okay items'

/-- New frames come behind what the reader has left. -/
theorem left_append : reader.left (items ++ items') = reader.left items ++ items' := by
  cases reader with
  | idle => rfl
  | found => rfl
  | skip off =>
    obtain ⟨it, rest, rfl, -⟩ := okay
    rfl

theorem ReaderPc.Ok.append : reader.Ok start size (items ++ items') := by
  cases reader with
  | idle => trivial
  | found => exact append_ne_nil_of_left_ne_nil okay _
  | skip off =>
    obtain ⟨it, rest, rfl, next⟩ := okay
    exact ⟨it, rest ++ items', rfl, next⟩

end

end Frames

namespace RingMachine.Layout

variable {m : RingMachine} {R C W : Nat} {unread alloc : List Item} {it : Item} {mem' : Buf}

section

variable (lay : m.Layout start size R C W unread alloc)

include lay

theorem whole : Chain size R (unread ++ alloc) W := lay.readable.append lay.pending

theorem order : R ≤ C ∧ C ≤ W :=
  ⟨lay.readable.le lay.shape, lay.pending.le lay.shape⟩

/-- The reader has read everything exactly when it has caught up with the last commit. -/
theorem empty_iff : m.ring.offReadX = m.ring.offWriteCom ↔ unread = [] := by
  obtain ⟨low, high⟩ := lay.order
  rw [lay.offReadX, lay.offWriteCom]
  constructor
  · intro same
    have caught := phys_inj low (Nat.lt_of_le_of_lt high lay.near) same
    have chain := lay.readable
    cases unread with
    | nil => rfl
    | cons it rest =>
      obtain ⟨rfl, fits, more⟩ := chain
      have header := fits.header lay.shape
      have behind := more.le lay.shape
      rw [Item.stop] at behind
      omega
  · rintro rfl
    rw [show R = C from lay.readable]

end

/-! ### The reader -/

theorem readerStep (lay : m.Layout start size R C W unread alloc) :
    ∃ R' unread', m.readerStep.Layout start size R' C W unread' alloc := by
  cases now : m.reader with
  | idle =>
    refine ⟨R, unread, ?_⟩
    rw [RingMachine.readerStep, now]
    dsimp only
    split
    case isTrue => exact lay
    case isFalse different =>
      have some : unread ≠ [] := fun none => different (lay.empty_iff.mpr none)
      have committed := lay.committed
      rw [now] at committed
      exact { lay with committed := committed, reader := some }
  | found =>
    have reader := lay.reader
    have committed := lay.committed
    rw [now] at reader committed
    obtain ⟨it, rest, rfl⟩ := exists_cons_of_ne_nil reader
    obtain ⟨pos, fits, -⟩ := lay.readable
    have headed := lay.headed it mem_cons_self
    have reading : m.ring.offReadX = phys start size it.pos := pos ▸ lay.offReadX
    have frame := headed.frameAt lay.shape fits
    have next := (headed.next lay.shape fits lay.offStart lay.offEnd rfl).2 reading
    refine ⟨R, it :: rest, ?_⟩
    rw [RingMachine.readerStep, now]
    dsimp only
    rw [reading, frame]
    have split : frames start size m.ring.mem (it :: rest) =
        frames start size m.ring.mem [it] ++ frames start size m.ring.mem rest :=
      frames_append [it] rest
    refine { lay with committed := ?_, reader := ⟨it, rest, rfl, next⟩ }
    rw [committed]
    show _ ++ frames start size m.ring.mem (it :: rest) = _ ++ frames start size m.ring.mem rest
    rw [split]
    by_cases padding : it.u8Type = typePadding
    · rw [frames_padding padding, if_pos (show (it.frame start size m.ring.mem).u8Type = _ from padding)]
      rfl
    · rw [frames_single padding, if_neg (show ¬ (it.frame start size m.ring.mem).u8Type = _ from padding),
        append_assoc]
  | skip offReadNew =>
    have reader := lay.reader
    have committed := lay.committed
    rw [now] at reader committed
    obtain ⟨it, rest, rfl, next⟩ := reader
    obtain ⟨rfl, fits, more⟩ := lay.readable
    have header := fits.header lay.shape
    have forward : it.pos ≤ it.stop size := by
      rw [Item.stop]
      omega
    refine ⟨it.stop size, rest, ?_⟩
    rw [RingMachine.readerStep, now]
    dsimp only
    refine { lay with
      offReadX := next
      aligned := fits.stop_aligned lay.shape
      near := Nat.lt_of_lt_of_le lay.near (Nat.add_le_add_right forward size)
      readable := more
      headed := fun it' member => lay.headed it' (mem_cons_of_mem _ member)
      committed := committed
      reader := trivial
      writer := ?_ }
    have writer := lay.writer
    dsimp only
    cases doing : m.writer with
    | idle => trivial
    | readRead request offWriteInt =>
      rw [doing] at writer
      exact writer
    | swap request offWriteInt offRead =>
      rw [doing] at writer
      obtain ⟨small, alone, int, R', old, close, read⟩ := writer
      exact ⟨small, alone, int, R', Nat.le_trans old forward, close, read⟩
    | publish offNew frame =>
      rw [doing] at writer
      exact writer

end RingMachine.Layout

/-! ### Writes to memory -/

/-- The memory of a lap from `R` on is changed between two positions only. -/
def Away (start size R : Nat) (mem mem' : Buf) (c d : Nat) : Prop :=
  ∀ x, R ≤ x → x < R + size → x < c ∨ d ≤ x →
    mem' (phys start size x) = mem (phys start size x)

section Away

variable {mem mem' mem'' bytes : Buf} {R c d off n : Nat} {it : Item}

theorem Away.trans (first : Away start size R mem mem' c d)
    (second : Away start size R mem' mem'' c d) : Away start size R mem mem'' c d :=
  fun x low high outside => (second x low high outside).trans (first x low high outside)

theorem Away.widen {c' d' : Nat} (away : Away start size R mem mem' c d) (low : c' ≤ c)
    (high : d ≤ d') : Away start size R mem mem' c' d' :=
  fun x above below outside => away x above below (by omega)

theorem away_put (placed : ∀ j < n, off + j = phys start size (c + j)) (low : R ≤ c)
    (high : c + n ≤ R + size) : Away start size R mem (put mem off n bytes) c (c + n) :=
  fun _ above below outside => put_other placed low high above below outside

theorem Away.headed (away : Away start size R mem mem' c d) (shape : Shape start size)
    (fits : it.Fits size) (low : R ≤ it.pos) (high : it.pos + 8 ≤ R + size)
    (outside : it.pos + 8 ≤ c ∨ d ≤ it.pos) (headed : it.Headed start size mem) :
    it.Headed start size mem' :=
  headed.same shape fits fun x above below => away x (by omega) (by omega) (by omega)

theorem Away.frame (away : Away start size R mem mem' c d) (fits : it.Fits size)
    (low : R ≤ it.dataPos size) (high : it.stop size ≤ R + size)
    (outside : it.stop size ≤ c ∨ d ≤ it.dataPos size) :
    it.frame start size mem' = it.frame start size mem :=
  Item.frame_same fits fun x above below => away x (by omega) (by omega) (by omega)

end Away

namespace RingMachine.Layout

variable {m : RingMachine} {R C W : Nat} {unread alloc : List Item} {it : Item} {mem' : Buf}
  {c d : Nat}

section

variable (lay : m.Layout start size R C W unread alloc)
  (away : Away start size R m.ring.mem mem' c d)

include lay away

/-- What is written behind the last commit leaves the committed frames alone. -/
theorem frames_away (behind : C ≤ c) : frames start size mem' (m.reader.left unread) =
      frames start size m.ring.mem (m.reader.left unread) := by
  have near := lay.near
  have order := lay.order
  refine frames_same (fun it member => (lay.readable.inside lay.shape (mem_left member)).1)
    fun it member x above below => ?_
  obtain ⟨fits, low, high⟩ := lay.readable.inside lay.shape (mem_left member)
  have header := fits.header lay.shape
  exact away x (by omega) (by omega) (by omega)

theorem headed_away (member : it ∈ unread ++ alloc) (outside : it.pos + 8 ≤ c ∨ d ≤ it.pos) :
    it.Headed start size mem' := by
  obtain ⟨fits, low, high⟩ := lay.whole.inside lay.shape member
  have header := fits.header lay.shape
  have near := lay.near
  rw [Item.stop] at high
  exact away.headed lay.shape fits low (by omega) outside (lay.headed it member)

end

end RingMachine.Layout

/-! ### The writers -/

theorem RingRequest.cbFrame_eq {request : RingRequest} (small : request.total < 2 ^ 24) :
    request.cbFrame = request.total ∧ request.copied.1 ≤ request.total := by
  cases request with
  | allocateFrame cbFrame => exact ⟨rfl, Nat.zero_le _⟩
  | allocateGsoFrame cbFrame pGso =>
    rw [total] at small
    exact ⟨Nat.mod_eq_of_lt (Nat.lt_trans small (by decide)), Nat.le_add_left _ _⟩
  | writeFrame pvFrame cbFrame => exact ⟨rfl, Nat.le_refl _⟩

theorem RingRequest.u8Type_spec (request : RingRequest) :
    request.u8Type < 256 ∧ request.u8Type ≠ typePadding := by
  have frame : typeFrame < 256 ∧ typeFrame ≠ typePadding := by decide
  have gso : typeGso < 256 ∧ typeGso ≠ typePadding := by decide
  cases request with
  | allocateFrame cbFrame => exact frame
  | allocateGsoFrame cbFrame pGso => exact gso
  | writeFrame pvFrame cbFrame => exact frame

/-- A frame that goes up to the end of the buffer while the reader is at its start. -/
def RingMachine.FillsUp (m : RingMachine) : Prop :=
  match m.writer with
  | .swap request offWriteInt offRead => offRead ≤ offWriteInt ∧
      offWriteInt + align32 request.cbFrame + cbHdr = m.ring.offEnd ∧
      m.ring.offReadX = m.ring.offStart
  | _ => False

namespace RingMachine.Layout

variable {m m' : RingMachine} {R C W : Nat} {unread alloc : List Item}

section

variable (lay : m.Layout start size R C W unread alloc)

include lay

/-- A new frame behind the allocated ones: its header and what is copied to its data. -/
theorem allocate {it : Item} (pos : it.pos = W) (fits : it.Fits size)
    (room : it.stop size < R + size) {n : Nat} {c : Buf} (copied : n ≤ it.cbFrame) :
    let mem := putHdr m.ring.mem (phys start size W)
      ⟨it.u8Type, it.cbFrame, sub32 (it.dataOff start size) (phys start size W)⟩
    let mem' := put mem (framePtr mem (phys start size W)) n c
    Away start size R m.ring.mem mem' W (it.stop size) ∧ it.Headed start size mem' ∧
      get mem' (it.dataOff start size) n = get c 0 n := by
  intro mem mem'
  obtain ⟨low, high⟩ := lay.order
  have header := fits.header lay.shape
  obtain ⟨above, -, -⟩ := fits.cb_spec
  have stop : it.stop size = it.dataPos size + it.cb := rfl
  have eight : cbHdr = 8 := rfl
  have headed : it.Headed start size mem := by
    rw [Item.Headed, pos, hdrAt_putHdr fits.type (Nat.mod_lt _ (Nat.two_pow_pos 32)),
      Nat.mod_eq_of_lt fits.small]
  have ptr : framePtr mem (phys start size W) = it.dataOff start size := by
    rw [← pos]
    exact headed.framePtr lay.shape fits
  have first : Away start size R m.ring.mem mem W (W + 8) :=
    away_put (fun j below => pos ▸ fits.header_phys lay.shape below) (by omega) (by omega)
  have second : Away start size R mem mem' (it.dataPos size) (it.dataPos size + n) :=
    away_put (fun j below => ptr ▸ fits.data_phys (by omega)) (by omega) (by omega)
  refine ⟨(first.widen (Nat.le_refl _) (by omega)).trans (second.widen (by omega) (by omega)),
    second.headed lay.shape fits (by omega) (by omega) (.inl header) headed, ?_⟩
  rw [← ptr]
  exact get_put

theorem writerStep (room : ¬ m.FillsUp) (step : m.writerStep = some m') :
    ∃ C' W' unread' alloc', m'.Layout start size R C' W' unread' alloc' := by
  have writer := lay.writer
  obtain ⟨low, high⟩ := lay.order
  cases now : m.writer with
  | idle =>
    rw [RingMachine.writerStep, now] at step
    cases step
  | readRead request offWriteInt =>
    rw [now] at writer
    obtain ⟨small, alone, int⟩ := writer
    rw [RingMachine.writerStep, now] at step
    cases step
    exact ⟨C, W, unread, alloc, { lay with
      writer := ⟨small, alone, int, R, Nat.le_refl R, lay.near, lay.offReadX⟩ }⟩
  | publish offNew frame =>
    rw [now] at writer
    obtain ⟨int, it, rfl, same⟩ := writer
    rw [RingMachine.writerStep, now] at step
    cases step
    obtain ⟨pos, fits, stop⟩ := lay.pending
    have last : it.stop size = W := stop
    have allocated := lay.allocated
    have proper := lay.proper it mem_cons_self
    refine ⟨W, W, unread ++ [it], [], { lay with
      offWriteCom := int
      readable := lay.readable.append (pos ▸ last ▸ Chain.single fits)
      pending := rfl
      headed := ?_
      proper := fun _ member => by cases member
      allocated := ?_
      committed := ?_
      reader := lay.reader.append [it]
      writer := trivial }⟩
    · rw [append_nil]
      exact lay.headed
    · rw [allocated]
      rfl
    · dsimp only
      rw [left_append lay.reader, frames_append, frames_single proper, same, lay.committed,
        append_assoc]
  | swap request offWriteInt offRead =>
    rw [RingMachine.FillsUp, now] at room
    rw [now] at writer
    obtain ⟨small, alone, rfl, R', old, close, rfl⟩ := writer
    obtain ⟨same, copied⟩ := RingRequest.cbFrame_eq small
    obtain ⟨type, proper⟩ := request.u8Type_spec
    have aligned : 8 ∣ W := lay.whole.stop_aligned lay.shape lay.aligned
    rw [RingMachine.writerStep, now] at step
    dsimp only at step room
    rw [IntNetRingBuf.allocateFrameInternal] at step
    cases fit : m.ring.fit (align32 request.cbFrame) (phys start size W) (phys start size R') with
    | none =>
      rw [fit] at step
      cases step
      exact ⟨C, W, unread, alloc, { lay with writer := trivial }⟩
    | some found =>
      obtain ⟨offNew, offFrame⟩ := found
      rw [fit] at step
      dsimp only at step
      rw [if_pos lay.offWriteInt] at step
      obtain ⟨it, pos, type', size', fits, rfl, rfl, most, full⟩ :=
        fit_spec lay.shape lay.offStart lay.offEnd (Nat.le_trans old (Nat.le_trans low high))
          close aligned type (same ▸ small) fit
      have free : it.stop size < R + size := by
        rcases Nat.lt_or_ge (it.stop size) (R + size) with free | taken
        · exact free
        · -- only from the start of the buffer, where the reader still is
          have still : R' = R := by omega
          obtain ⟨atStart, behind, ends⟩ := full (by omega)
          refine absurd ⟨behind, ?_, ?_⟩ room
          · rw [lay.offEnd]
            exact ends
          · rw [lay.offReadX, lay.offStart, ← still]
            exact atStart
      rw [← type', ← size'] at step
      obtain ⟨away, headed, written⟩ := lay.allocate pos fits free
        (n := request.copied.1) (c := request.copied.2) (by rw [size', same]; exact copied)
      dsimp only at step
      cases step
      have longer : Chain size C (alloc ++ [it]) (it.stop size) :=
        lay.pending.append (pos ▸ Chain.single fits)
      refine ⟨C, it.stop size, unread, alloc ++ [it], { lay with
        offWriteInt := rfl
        near := free
        pending := longer
        headed := ?_
        proper := ?_
        allocated := ?_
        committed := ?_
        writer := ?_ }⟩
      · intro it' member
        rw [← append_assoc] at member
        rcases mem_append.mp member with before | last
        · obtain ⟨fits', low', high'⟩ := lay.whole.inside lay.shape before
          have header' := fits'.header lay.shape
          rw [Item.stop] at high'
          exact lay.headed_away away before (.inl (by omega))
        · cases mem_singleton.mp last
          exact headed
      · intro it' member
        rcases mem_append.mp member with before | last
        · exact lay.proper it' before
        · cases mem_singleton.mp last
          exact type' ▸ proper
      · dsimp only
        rw [lay.allocated, map_append, map_singleton, pos]
      · dsimp only
        rw [lay.frames_away away high]
        exact lay.committed
      · cases request with
        | allocateFrame cbFrame => trivial
        | allocateGsoFrame cbFrame pGso => trivial
        | writeFrame pvFrame cbFrame =>
          have none : alloc = [] := alone
          subst none
          refine ⟨rfl, it, rfl, ?_⟩
          rw [type', size'] at written
          rw [Item.frame, type', size']
          exact congrArg (Frame.mk typeFrame) written

/-- The frame to be committed next, and the ones behind it. -/
theorem first {pHdr : Nat} {rest : List Nat} (allocated : m.allocated = pHdr :: rest) :
    ∃ it items, alloc = it :: items ∧ it.pos = C ∧ it.Fits size ∧
      Chain size (it.stop size) items W ∧ pHdr = phys start size it.pos ∧
      rest = items.map (fun it => phys start size it.pos) ∧ it.Headed start size m.ring.mem ∧
      it.u8Type ≠ typePadding := by
  have listed := lay.allocated
  have pending := lay.pending
  rw [allocated] at listed
  cases alloc with
  | nil => cases listed
  | cons it items =>
    obtain ⟨pos, fits, more⟩ := pending
    rw [map_cons, cons.injEq] at listed
    exact ⟨it, items, rfl, pos, fits, more, listed.1, listed.2,
      lay.headed it (mem_append_right _ mem_cons_self), lay.proper it mem_cons_self⟩

/-- The frames of a commit come behind the readable ones: the frame itself, and what pads
it. -/
theorem commit (idle : m.writer = .idle) {it : Item} {items made : List Item} {mem' : Buf}
    (next : alloc = it :: items) (away : Away start size R m.ring.mem mem' C (it.stop size))
    (chain : Chain size C made (it.stop size)) (headed : ∀ it' ∈ made, it'.Headed start size mem')
    {rest : List Nat} (others : rest = items.map fun it => phys start size it.pos) {frame : Frame}
    (added : frames start size mem' made = [frame]) :
    RingMachine.Layout { m with
      ring := { m.ring with offWriteCom := phys start size (it.stop size), mem := mem' }
      allocated := rest
      committed := m.committed ++ [frame] } start size R (it.stop size) W (unread ++ made) items := by
  have pending := lay.pending
  have proper := lay.proper
  have headed' : ∀ it' ∈ unread ++ alloc, it' ∈ unread ∨ it' ∈ items →
      it'.Headed start size mem' := by
    intro it' member part
    refine lay.headed_away away member ?_
    rcases part with before | after
    · obtain ⟨fits, -, high⟩ := lay.readable.inside lay.shape before
      have header := fits.header lay.shape
      rw [Item.stop] at high
      exact .inl (by omega)
    · rw [next] at pending
      exact .inr (pending.2.2.inside lay.shape after).2.1
  subst next
  exact { lay with
    offWriteCom := rfl
    readable := lay.readable.append chain
    pending := pending.2.2
    headed := by
      intro it' member
      rcases mem_append.mp member with ready | after
      · rcases mem_append.mp ready with before | new
        · exact headed' it' (mem_append_left _ before) (.inl before)
        · exact headed it' new
      · exact headed' it' (mem_append_right _ (mem_cons_of_mem _ after)) (.inr after)
    proper := fun it' member => proper it' (mem_cons_of_mem _ member)
    allocated := others
    committed := by
      dsimp only
      rw [left_append lay.reader, frames_append, added, lay.frames_away away (Nat.le_refl _),
        lay.committed, append_assoc]
    reader := lay.reader.append made
    writer := by
      dsimp only
      rw [idle]
      trivial }

end

theorem away_refl {mem : Buf} {c d : Nat} : Away start size R mem mem c d :=
  fun _ _ _ _ => rfl

section

variable (lay : m.Layout start size R C W unread alloc) (idle : m.writer = .idle)

include lay idle

/-- What a commit does with a frame that is used in full. -/
theorem commitFrame {pHdr : Nat} {rest : List Nat} (allocated : m.allocated = pHdr :: rest) :
    ∃ C' unread' alloc', RingMachine.Layout { m with
      ring := { m.ring with offWriteCom := m.ring.commitFrame pHdr }
      allocated := rest
      committed := m.committed ++ [frameAt m.ring.mem pHdr (hdrAt m.ring.mem pHdr).cbFrame] }
      start size R C' W unread' alloc' := by
  obtain ⟨it, items, next, pos, fits, -, rfl, others, headed, proper⟩ := lay.first allocated
  rw [(headed.next lay.shape fits lay.offStart lay.offEnd rfl).1, headed.frameAt lay.shape fits]
  have single : ∀ it' ∈ [it], it'.Headed start size m.ring.mem := by
    intro it' member
    cases mem_singleton.mp member
    exact headed
  exact ⟨_, _, _, lay.commit idle next away_refl (pos ▸ Chain.single fits) single others
    (frames_single proper)⟩

/-- A commit that pads what is not used. -/
theorem commitFrameEx {pHdr cbUsed : Nat} {rest : List Nat} (allocated : m.allocated = pHdr :: rest)
    (inside : m.ring.used pHdr cbUsed ≤ (hdrAt m.ring.mem pHdr).cbFrame)
    (exact' : align32 (m.ring.used pHdr cbUsed) = align32 (hdrAt m.ring.mem pHdr).cbFrame →
      m.ring.used pHdr cbUsed = (hdrAt m.ring.mem pHdr).cbFrame) :
    ∃ C' unread' alloc', RingMachine.Layout { m with
      ring := { m.ring with
        offWriteCom := m.ring.commitFrame pHdr
        mem := m.ring.commitFrameEx pHdr cbUsed }
      allocated := rest
      committed := m.committed ++ [frameAt m.ring.mem pHdr (m.ring.used pHdr cbUsed)] }
      start size R C' W unread' alloc' := by
  generalize used : m.ring.used pHdr cbUsed = u at *
  by_cases same : align32 (hdrAt m.ring.mem pHdr).cbFrame = align32 u
  · rw [IntNetRingBuf.commitFrameEx, used]
    dsimp only
    rw [if_neg (not_not.mpr same), exact' same.symm]
    exact lay.commitFrame idle allocated
  · obtain ⟨it, items, next, pos, fits, more, rfl, others, headed, proper⟩ := lay.first allocated
    have header : hdrAt m.ring.mem (phys start size it.pos) = _ := headed
    have ptr := headed.framePtr lay.shape fits
    have size' : (hdrAt m.ring.mem (phys start size it.pos)).cbFrame = it.cbFrame := by rw [header]
    have type' : (hdrAt m.ring.mem (phys start size it.pos)).u8Type = it.u8Type := by rw [header]
    rw [size'] at inside same
    obtain ⟨above, tight, whole⟩ := fits.cb_spec
    have small := fits.small
    obtain ⟨overU, tightU, wholeU⟩ := align32_spec (show u < 2 ^ 31 by omega)
    have cb : it.cb = align32 it.cbFrame := rfl
    have less : align32 u + 8 ≤ it.cb := by omega
    have first := fits.header lay.shape
    have stop : it.stop size = it.dataPos size + it.cb := rfl
    have below := fits.off_end start
    have low := lay.shape.small
    have order := lay.order
    have near := lay.near
    have limit : it.stop size ≤ R + size := by
      have high := more.le lay.shape
      omega
    -- the frame as it is used, and the padding behind it
    let short : Item := ⟨it.pos, it.wrapped, it.u8Type, u⟩
    let padding : Item := ⟨it.dataPos size + align32 u, false, typePadding, it.cb - align32 u - 8⟩
    have shortCb : short.cb = align32 u := rfl
    have shortFits : short.Fits size := by
      refine ⟨fits.aligned, fits.type, show u < 2 ^ 24 by omega, ?_⟩
      have room := fits.room
      rw [shortCb]
      show if it.wrapped = true then align32 u < size else it.pos % size + 8 + align32 u ≤ size
      split at room
      case isTrue wrapped =>
        rw [if_pos wrapped]
        omega
      case isFalse inline =>
        rw [if_neg inline]
        omega
    have paddingCb : padding.cb = it.cb - align32 u - 8 := by
      show align32 (it.cb - align32 u - 8) = _
      rw [align32]
      omega
    have placePadding : phys start size padding.pos = it.dataOff start size + align32 u :=
      (fits.data_phys (by omega)).symm
    have paddingFits : padding.Fits size := by
      have aligned : 8 ∣ it.dataPos size := by
        have stop_aligned := fits.stop_aligned lay.shape
        omega
      refine ⟨show 8 ∣ it.dataPos size + align32 u by omega, show typePadding < 256 by decide,
        show it.cb - align32 u - 8 < 2 ^ 24 by omega, ?_⟩
      show padding.pos % size + 8 + padding.cb ≤ size
      have place : start + padding.pos % size = it.dataOff start size + align32 u := placePadding
      omega
    have ends : padding.stop size = it.stop size := by
      show padding.pos + 8 + padding.cb = _
      rw [paddingCb, stop]
      show it.dataPos size + align32 u + 8 + _ = _
      omega
    have chain : Chain size C [short, padding] (it.stop size) :=
      ⟨pos, shortFits, rfl, paddingFits, ends⟩
    rw [(headed.next lay.shape fits lay.offStart lay.offEnd rfl).1, frameAt, type', ptr,
      IntNetRingBuf.commitFrameEx, used]
    dsimp only
    rw [size', if_pos same, ptr, header]
    dsimp only
    have wrapPadding : (it.dataOff start size + align32 u) % 2 ^ 32 =
        phys start size padding.pos := by
      rw [placePadding, Nat.mod_eq_of_lt (by omega)]
    have cbPadding : sub32 (sub32 (align32 it.cbFrame) (align32 u)) cbHdr =
        it.cb - align32 u - 8 := by
      rw [sub32, sub32, ← cb, show cbHdr = 8 from rfl]
      omega
    rw [wrapPadding, cbPadding]
    generalize padded : putHdr m.ring.mem (phys start size padding.pos)
      ⟨typePadding, it.cb - align32 u - 8, cbHdr⟩ = mem₁
    generalize committed : putHdr mem₁ (phys start size it.pos)
      ⟨it.u8Type, u, sub32 (it.dataOff start size) (phys start size it.pos)⟩ = mem₂
    have eight : cbHdr = 8 := rfl
    have away₁ : Away start size R m.ring.mem mem₁ padding.pos (padding.pos + 8) := by
      rw [← padded]
      refine away_put (fun j less => paddingFits.header_phys lay.shape less) ?_ ?_
      · show R ≤ it.dataPos size + align32 u
        omega
      · show it.dataPos size + align32 u + cbHdr ≤ R + size
        omega
    have away₂ : Away start size R mem₁ mem₂ it.pos (it.pos + 8) := by
      rw [← committed]
      exact away_put (fun j less => fits.header_phys lay.shape less) (by omega) (by omega)
    have behind : it.pos + 8 ≤ padding.pos := by
      show it.pos + 8 ≤ it.dataPos size + align32 u
      omega
    have before : padding.pos + 8 ≤ it.stop size := by
      show it.dataPos size + align32 u + 8 ≤ it.stop size
      omega
    have headedPadding : padding.Headed start size mem₂ := by
      refine away₂.headed lay.shape paddingFits ?_ (by omega) (.inr behind) ?_
      · omega
      · have offset : sub32 (padding.dataOff start size) (phys start size padding.pos) = cbHdr := by
          show sub32 (phys start size padding.pos + 8) (phys start size padding.pos) = 8
          rw [sub32]
          omega
        rw [Item.Headed, ← padded, hdrAt_putHdr (show typePadding < 256 by decide)
            (show cbHdr < 2 ^ 32 by decide), offset,
          Nat.mod_eq_of_lt (show it.cb - align32 u - 8 < 2 ^ 24 by omega)]
    have headedShort : short.Headed start size mem₂ := by
      show hdrAt mem₂ (phys start size it.pos) = _
      rw [← committed, hdrAt_putHdr fits.type (Nat.mod_lt _ (Nat.two_pow_pos 32)),
        Nat.mod_eq_of_lt (show u < 2 ^ 24 by omega)]
      rfl
    have kept : short.frame start size mem₂ = short.frame start size m.ring.mem := by
      have shortStop : short.stop size = padding.pos := rfl
      have shortData : short.dataPos size = it.dataPos size := rfl
      rw [away₂.frame shortFits (by omega) (by omega) (.inr (by omega)),
        away₁.frame shortFits (by omega) (by omega) (.inl (by omega))]
    refine ⟨_, _, _, lay.commit idle next ?_ chain ?_ others ?_⟩
    · exact (away₁.widen (by omega) (by omega)).trans (away₂.widen (by omega) (by omega))
    · intro it' member
      rcases mem_cons.mp member with rfl | last
      · exact headedShort
      · cases mem_singleton.mp last
        exact headedPadding
    · have split : frames start size mem₂ ([short] ++ [padding]) = _ := frames_append [short] [padding]
      have properShort : short.u8Type ≠ typePadding := proper
      have paddingType : padding.u8Type = typePadding := rfl
      rw [frames_single properShort, frames_padding paddingType, kept] at split
      exact split

/-- The owner of an allocated frame writes to its data. -/
theorem fill {k off n pHdr : Nat} {bytes : Buf} (found : m.allocated[k]? = some pHdr)
    (inside : off + n ≤ (hdrAt m.ring.mem pHdr).cbFrame) :
    RingMachine.Layout { m with ring := { m.ring with
      mem := put m.ring.mem (framePtr m.ring.mem pHdr + off) n bytes } }
      start size R C W unread alloc := by
  rw [lay.allocated, getElem?_map, Option.map_eq_some_iff] at found
  obtain ⟨it, found, rfl⟩ := found
  have member := mem_of_getElem? found
  obtain ⟨fits, low, high⟩ := lay.pending.inside lay.shape member
  have headed := lay.headed it (mem_append_right _ member)
  have size' : (hdrAt m.ring.mem (phys start size it.pos)).cbFrame = it.cbFrame := by
    rw [show hdrAt m.ring.mem (phys start size it.pos) = _ from headed]
  rw [size'] at inside
  rw [headed.framePtr lay.shape fits]
  obtain ⟨above, -, -⟩ := fits.cb_spec
  have first := fits.header lay.shape
  have stop : it.stop size = it.dataPos size + it.cb := rfl
  have order := lay.order
  have near := lay.near
  have away : Away start size R m.ring.mem
      (put m.ring.mem (it.dataOff start size + off) n bytes) (it.dataPos size + off)
      (it.dataPos size + off + n) := by
    refine away_put (fun j less => ?_) (by omega) (by omega)
    rw [Nat.add_assoc, fits.data_phys (by omega), ← Nat.add_assoc]
  exact { lay with
    headed := by
      intro it' member'
      obtain ⟨fits', low', high'⟩ := lay.whole.inside lay.shape member'
      have first' := fits'.header lay.shape
      have stop' : it'.stop size = it'.dataPos size + it'.cb := rfl
      refine lay.headed_away away member' ?_
      by_cases same : it' = it
      · subst same
        exact .inl (by omega)
      · have apart := lay.whole.apart lay.shape member' (mem_append_right _ member) same
        omega
    committed := by
      dsimp only
      rw [lay.frames_away away (by omega)]
      exact lay.committed
    writer := by
      dsimp only
      rw [idle]
      trivial }

end

end RingMachine.Layout

end VBox.Net
