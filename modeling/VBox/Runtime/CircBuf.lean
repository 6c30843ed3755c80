import VBox.Lib.RingWindow
import VBox.Lib.Run

/-!
The circular buffer.

A reader and a writer take turns in any order; what is atomic are the loads and stores of the
positions and of the fill level, and those of single bytes.
-/

namespace VBox.Runtime.CircBuf

open VBox.Lib

variable {β : Type}

/-! ### The buffer -/

inductive Party where
  | reader
  | writer
  deriving DecidableEq

structure RtCircBuf (β : Type) where
  offRead : Nat
  offWrite : Nat
  cbUsed : Nat
  cbBuf : Nat
  pvBuf : Nat → β

/-- Sums and differences of `size_t`. -/
def addSize (a b : Nat) : Nat := (a + b) % 2 ^ 64
def subSize (a b : Nat) : Nat := (a + (2 ^ 64 - b)) % 2 ^ 64

namespace RtCircBuf

/-- The position of a party. -/
def off (pBuf : RtCircBuf β) : Party → Nat
  | .reader => pBuf.offRead
  | .writer => pBuf.offWrite

def setOff (pBuf : RtCircBuf β) (off : Nat) : Party → RtCircBuf β
  | .reader => { pBuf with offRead := off }
  | .writer => { pBuf with offWrite := off }

/-- What there is for a party: used or free. -/
def available (pBuf : RtCircBuf β) : Party → Nat
  | .reader => pBuf.cbUsed
  | .writer => subSize pBuf.cbBuf pBuf.cbUsed

/-- The fill level when a party is done with some bytes. -/
def level (pBuf : RtCircBuf β) (cbSize : Nat) : Party → Nat
  | .reader => subSize pBuf.cbUsed cbSize
  | .writer => addSize pBuf.cbUsed cbSize

/-- The bytes of a block. -/
def block (pBuf : RtCircBuf β) (start cbSize : Nat) : List β :=
  (List.range cbSize).map fun i => pBuf.pvBuf (start + i)

end RtCircBuf

/-! ### Steps -/

/-- Where a party is: what has been loaded, and the block it holds. -/
inductive Side where
  | idle
  /-- Acquiring: the size asked for and what is available. -/
  | sized (cbReqSize cbAvailable : Nat)
  /-- Acquiring: the size of the block. -/
  | placed (cbSize : Nat)
  | holding (start cbSize : Nat)
  /-- Releasing some bytes: the position has been loaded. -/
  | releasing (start cbSize cbDone off : Nat)
  /-- Releasing: the position has been stored. -/
  | moved (start cbSize cbDone : Nat)
  deriving DecidableEq

/-- The block that a party holds until the release is over. -/
def Side.held : Side → Nat × Nat
  | .holding start cbSize => (start, cbSize)
  | .releasing start cbSize _ _ => (start, cbSize)
  | .moved start cbSize _ => (start, cbSize)
  | _ => (0, 0)

/-- The buffer, the parties, and what has happened: the bytes released by the writer and by the
reader, and the bytes that the reader has loaded, with their numbers. -/
structure State (β : Type) where
  pBuf : RtCircBuf β
  side : Party → Side
  written : List β
  read : List β
  loads : List (Nat × β)

namespace State

def setSide (s : State β) (p : Party) (side : Side) : State β :=
  { s with side := Function.update s.side p side }

/-- The bytes that a party has released are counted. -/
def done (s : State β) (bytes : List β) : Party → State β
  | .reader => { s with read := s.read ++ bytes }
  | .writer => { s with written := s.written ++ bytes }

end State

inductive Act (β : Type) where
  /-- `RTCircBufAcquireReadBlock` and `RTCircBufAcquireWriteBlock`: what is available is loaded. -/
  | acquire (p : Party) (cbReqSize : Nat)
  /-- The position is loaded for the size of the block. -/
  | size (p : Party)
  /-- The position is loaded for its start. -/
  | place (p : Party)
  /-- The reader loads a byte of its block. -/
  | load (i : Nat)
  /-- The writer stores a byte of its block. -/
  | store (i : Nat) (b : β)
  /-- `RTCircBufReleaseReadBlock` and `RTCircBufReleaseWriteBlock`: the position is loaded. -/
  | release (p : Party) (cbSize : Nat)
  /-- The new position is stored. -/
  | move (p : Party)
  /-- The fill level is changed. -/
  | count (p : Party)

/-- One atomic step. -/
def step (s : State β) : Act β → Option (State β)
  | .acquire p cbReqSize =>
    match s.side p with
    | .idle =>
      if 0 < s.pBuf.available p then
        some (s.setSide p (.sized cbReqSize (s.pBuf.available p)))
      else some s
    | _ => none
  | .size p =>
    match s.side p with
    | .sized cbReqSize cbAvailable =>
      let cbSize := min cbReqSize (min (subSize s.pBuf.cbBuf (s.pBuf.off p)) cbAvailable)
      some (s.setSide p (if 0 < cbSize then .placed cbSize else .idle))
    | _ => none
  | .place p =>
    match s.side p with
    | .placed cbSize => some (s.setSide p (.holding (s.pBuf.off p) cbSize))
    | _ => none
  | .load i =>
    match s.side .reader with
    | .holding start cbSize =>
      if i < cbSize then
        some { s with loads := s.loads ++ [(s.read.length + i, s.pBuf.pvBuf (start + i))] }
      else none
    | _ => none
  | .store i b =>
    match s.side .writer with
    | .holding start cbSize =>
      if i < cbSize then
        some { s with pBuf := { s.pBuf with pvBuf := Function.update s.pBuf.pvBuf (start + i) b } }
      else none
    | _ => none
  | .release p cbSize =>
    match s.side p with
    | .idle =>
      -- no block has been acquired
      if cbSize = 0 then some (s.setSide p (.releasing (s.pBuf.off p) 0 0 (s.pBuf.off p))) else none
    | .holding start cbHeld =>
      if cbSize ≤ cbHeld then some (s.setSide p (.releasing start cbHeld cbSize (s.pBuf.off p)))
      else none
    | _ => none
  | .move p =>
    match s.side p with
    | .releasing start cbHeld cbSize off =>
      some { s.setSide p (.moved start cbHeld cbSize) with
        pBuf := s.pBuf.setOff (addSize off cbSize % s.pBuf.cbBuf) p }
    | _ => none
  | .count p =>
    match s.side p with
    | .moved start _ cbSize =>
      some { (s.setSide p .idle).done (s.pBuf.block start cbSize) p with
        pBuf := { s.pBuf with cbUsed := s.pBuf.level cbSize p } }
    | _ => none

/-- `RTCircBufCreate`: an empty buffer, if there is memory for its bytes. -/
def rtCircBufCreate (cbSize : UInt64) (pvBuf : Option (Nat → β)) : Option (State β) :=
  if 0 < cbSize then
    pvBuf.map fun pvBuf => ⟨⟨0, 0, 0, cbSize.toNat, pvBuf⟩, fun _ => .idle, [], [], []⟩
  else none

/-! ### What holds -/

/-- The blocks of the two parties have no byte in common. -/
def Apart (s : State β) : Prop :=
  ∀ i < (s.side .reader).held.2, ∀ j < (s.side .writer).held.2,
    (s.side .reader).held.1 + i ≠ (s.side .writer).held.1 + j

/-- A queue for one reader and one writer. -/
structure Fifo (cbSize : Nat) (s : State β) : Prop where
  apart : Apart s
  level : s.pBuf.cbUsed ≤ cbSize
  inOrder : s.read <+: s.written
  loads : ∀ i b, (i, b) ∈ s.loads → s.written[i]? = some b

/-- The number of the byte at a party's position. -/
def State.at (s : State β) : Party → Nat
  | .reader => s.read.length
  | .writer => s.written.length

/-- How far a party may go. -/
def State.limit (s : State β) : Party → Nat
  | .reader => s.written.length - s.read.length
  | .writer => s.pBuf.cbBuf - (s.written.length - s.read.length)

/-- What a party knows is right: its block begins at its position and is within the limit. -/
def SideOk (cbBuf pos limit off : Nat) : Side → Prop
  | .idle => off = pos % cbBuf
  | .sized _ cbAvailable => off = pos % cbBuf ∧ cbAvailable ≤ limit
  | .placed cbSize => off = pos % cbBuf ∧ cbSize ≤ limit ∧ pos % cbBuf + cbSize ≤ cbBuf
  | .holding start cbSize =>
    off = pos % cbBuf ∧ start = pos % cbBuf ∧ cbSize ≤ limit ∧ pos % cbBuf + cbSize ≤ cbBuf
  | .releasing start cbSize cbDone off' =>
    off = pos % cbBuf ∧ off' = off ∧ start = pos % cbBuf ∧ cbSize ≤ limit ∧
      pos % cbBuf + cbSize ≤ cbBuf ∧ cbDone ≤ cbSize
  | .moved start cbSize cbDone =>
    off = (pos + cbDone) % cbBuf ∧ start = pos % cbBuf ∧ cbSize ≤ limit ∧
      pos % cbBuf + cbSize ≤ cbBuf ∧ cbDone ≤ cbSize

/-- The invariant of the buffer. -/
structure Inv (cbSize : Nat) (s : State β) : Prop where
  positive : 0 < cbSize
  size : s.pBuf.cbBuf = cbSize
  order : s.read.length ≤ s.written.length
  room : s.written.length - s.read.length ≤ cbSize
  used : s.pBuf.cbUsed = s.written.length - s.read.length
  sides : ∀ p, SideOk cbSize (s.at p) (s.limit p) (s.pBuf.off p) (s.side p)
  holds : Holds s.pBuf.pvBuf cbSize s.written s.read.length
  inOrder : s.read <+: s.written
  loads : ∀ i b, (i, b) ∈ s.loads → s.written[i]? = some b

end VBox.Runtime.CircBuf
