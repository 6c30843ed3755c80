import VBox.Lib.Codec
import VBox.Lib.Run
import Mathlib.Logic.Function.Basic

/-!
The write stream of the saved state manager: buffers that a producer fills and queues, and
that the I/O thread, or the producer itself, writes out.

A list is the list of its buffers. Taking a buffer off a list, putting one on it and taking
the whole list over are one step each, at the exchange that succeeds; only the producer takes
from the free list, so that the successor it has read there is still the successor then. What
a thread does to its own variables happens in the step of the list operation it goes with.
Failures of the output methods and the read side are left out.
-/

namespace VBox.Vmm.Ssm

open VBox.Lib
open Function (update)

/-! ### Bytes -/

/-- `memcpy` to a position of a buffer. -/
def memcpy (b : Buf) (off : Nat) (bytes : List UInt8) : Buf := fun i =>
  if off ≤ i ∧ i < off + bytes.length then bytes.getD (i - off) 0 else b i

def bytesAt (b : Buf) (off n : Nat) : List UInt8 := (List.range n).map fun i => b (off + i)

/-- An entry of `g_au32CRC32`. -/
def crc32Entry (i : UInt32) : UInt32 :=
  Nat.iterate (fun c => if c &&& 1 = 0 then c >>> 1 else (c >>> 1) ^^^ 0xedb88320) 8 i

/-- `RTCrc32Start` -/
def crc32Start : UInt32 := 0xffffffff

/-- `RTCrc32Process` -/
def crc32Process (uCRC32 : UInt32) (bytes : List UInt8) : UInt32 :=
  bytes.foldl (fun c byte => crc32Entry ((c ^^^ byte.toUInt32) &&& 0xff) ^^^ (c >>> 8)) uCRC32

/-! ### The stream -/

/-- The size of `abData`. -/
def cbBuf : Nat := 65536

/-- `SSMSTRMBUF` -/
structure SsmStrmBuf where
  abData : Buf
  offStream : Nat
  cb : Nat
  fEndOfStream : Bool

/-- The data of a buffer that has been queued. -/
def SsmStrmBuf.bytes (b : SsmStrmBuf) : List UInt8 := bytesAt b.abData 0 b.cb

/-- `SSMSTRM`, of a checksummed stream for writing. -/
structure SsmStrm where
  bufs : Nat → SsmStrmBuf
  fTerminating : Bool
  hIoThread : Bool
  pHead : List Nat
  pFree : List Nat
  pCur : Option Nat
  offCurStream : Nat
  off : Nat
  u32StreamCRC : UInt32
  offStreamCRC : Nat

/-- What the producer is in the middle of when it needs a list operation. -/
inductive Then where
  | ret
  | write (bytes : List UInt8)
  | reserve (cb : Nat)
  | setEnd
  | close
deriving DecidableEq

inductive ProducerPc where
  | ready
  /-- `ssmR3StrmFlushCurBuf` -/
  | flush (next : Then)
  /-- `ssmR3StrmGetFreeBuf` -/
  | getFree (next : Then)
  /-- `ssmR3StrmWriteBuffers` on the producer's own thread -/
  | writeBuffers (next : Then)
  /-- `RTThreadWait` -/
  | join
  | closed
deriving DecidableEq

/-- The I/O thread, or whoever writes buffers. -/
inductive WriterPc where
  | idle
  /-- About to look at `fTerminating`. -/
  | checking
  /-- About to look at `pHead` a last time. -/
  | terminating
  | writing (pHead : List Nat)
  | freeing (pCur : Nat) (pHead : List Nat)
  | done

/-- A stream at work. Beside it: where reserved space is, with its size, what `pfnWrite` has
been called with, the bytes given to the calls so far, and whether the end has been set. -/
structure StrmMachine where
  strm : SsmStrm
  producer : ProducerPc
  writer : WriterPc
  reserved : Option (Nat × Nat × Nat)
  writes : List (Nat × List UInt8)
  asked : List UInt8
  ended : Bool

/-- The calls of the producer. A commit comes with what has been put into the space. -/
inductive StrmCall where
  | write (bytes : List UInt8)
  | reserve (cb : Nat)
  | commit (bytes : List UInt8)
  | checkAndFlush (fOld : Bool)
  | setEnd
  | close
  | curCRC

inductive StrmLabel where
  | call (c : StrmCall)
  | producer
  | writer

namespace SsmStrm

variable (s : SsmStrm)

def setBuf (id : Nat) (b : SsmStrmBuf) : SsmStrm := { s with bufs := update s.bufs id b }

/-- Copy to the current buffer at its end. -/
def append (id : Nat) (bytes : List UInt8) : SsmStrm :=
  { s.setBuf id { s.bufs id with abData := memcpy (s.bufs id).abData s.off bytes } with
    off := s.off + bytes.length }

/-- `ssmR3StrmFlushCurBuf` with a current buffer. -/
def flushCurBuf (id : Nat) : SsmStrm :=
  let b := s.bufs id
  { s.setBuf id { b with cb := s.off, offStream := s.offCurStream } with
    u32StreamCRC :=
      if s.offStreamCRC < s.off then
        crc32Process s.u32StreamCRC (bytesAt b.abData s.offStreamCRC (s.off - s.offStreamCRC))
      else s.u32StreamCRC
    offCurStream := (s.offCurStream + s.off) % 2 ^ 64
    off := 0
    offStreamCRC := 0
    pCur := none
    pHead := id :: s.pHead }

/-- `ssmR3StrmGetFreeBuf` with a free buffer, which becomes the current one. -/
def getFreeBuf (id : Nat) (pFree : List Nat) : SsmStrm :=
  { s.setBuf id { s.bufs id with offStream := 2 ^ 64 - 1, cb := 0, fEndOfStream := false } with
    pFree
    pCur := some id }

/-- `ssmR3StrmCurCRC` -/
def curCRC : SsmStrm × UInt32 :=
  match s.pCur with
  | none => (s, s.u32StreamCRC)
  | some id =>
      if s.offStreamCRC < s.off then
        let u32StreamCRC := crc32Process s.u32StreamCRC
          (bytesAt (s.bufs id).abData s.offStreamCRC (s.off - s.offStreamCRC))
        ({ s with u32StreamCRC, offStreamCRC := s.off }, u32StreamCRC)
      else (s, s.u32StreamCRC)

end SsmStrm

namespace StrmMachine

variable (m : StrmMachine)

def setStrm (strm : SsmStrm) (producer : ProducerPc) : StrmMachine := { m with strm, producer }

/-- The writing of the buffers that are queued begins. -/
def takeOver : StrmMachine :=
  { m with strm := { m.strm with pHead := [] }, writer := .writing m.strm.pHead.reverse }

/-- `ssmR3StrmClose` behind its flush. -/
def closing : StrmMachine :=
  if m.strm.hIoThread then m.setStrm { m.strm with fTerminating := true } .join
  else { m.takeOver with producer := .writeBuffers .close }

/-- The fresh current buffer is used for what it was got for. -/
def useFresh (id : Nat) : Then → StrmMachine
  | .write bytes =>
      let rest := bytes.drop cbBuf
      m.setStrm (m.strm.append id (bytes.take cbBuf))
        (if rest = [] then .ready else .flush (.write rest))
  | .reserve cb => { m with reserved := some (id, m.strm.off, cb), producer := .ready }
  | .setEnd => m.setStrm (m.strm.setBuf id { m.strm.bufs id with fEndOfStream := true })
      (.flush .ret)
  | _ => { m with producer := .ready }

/-- A call begins; what needs no list operation is done at once. -/
def call : StrmCall → Option StrmMachine
  | .write bytes =>
      let m := { m with asked := m.asked ++ bytes }
      if bytes = [] then some m
      else match m.strm.pCur with
        | none => some (m.setStrm m.strm (.getFree (.write bytes)))
        | some id =>
            let cbLeft := cbBuf - m.strm.off
            some (m.setStrm (m.strm.append id (bytes.take cbLeft))
              (if bytes.length ≤ cbLeft then .ready else .flush (.write (bytes.drop cbLeft))))
  | .reserve cb =>
      match m.strm.pCur with
      | none => some (m.setStrm m.strm (.getFree (.reserve cb)))
      | some id =>
          if cb ≤ cbBuf - m.strm.off then some { m with reserved := some (id, m.strm.off, cb) }
          else some (m.setStrm m.strm (.flush (.reserve cb)))
  | .commit bytes =>
      m.reserved.map fun (id, off, _) =>
        { m with
          strm := { m.strm.setBuf id { m.strm.bufs id with
            abData := memcpy (m.strm.bufs id).abData off bytes } with
            off := m.strm.off + bytes.length }
          reserved := none
          asked := m.asked ++ bytes }
  | .checkAndFlush fOld =>
      match m.strm.pCur with
      | some _ =>
          if m.strm.hIoThread ∧ m.strm.pHead = [] ∧ fOld then
            some (m.setStrm m.strm (.flush .ret))
          else some m
      | none => some m
  | .setEnd =>
      let m := { m with ended := true }
      match m.strm.pCur with
      | none => some (m.setStrm m.strm (.getFree .setEnd))
      | some id => some (m.useFresh id .setEnd)
  | .close =>
      match m.strm.pCur with
      | none => some m.closing
      | some _ => some (m.setStrm m.strm (.flush .close))
  | .curCRC => some (m.setStrm m.strm.curCRC.1 .ready)

/-- A list operation of the producer, with what follows it. -/
def produce : Option StrmMachine :=
  match m.producer, m.strm.pCur with
  | .flush next, some id =>
      let m := m.setStrm (m.strm.flushCurBuf id) .ready
      some (match next with
        | .ret => m
        | .close => m.closing
        | next => { m with producer := .getFree next })
  | .getFree next, _ =>
      match m.strm.pFree with
      | id :: pFree => some ((m.setStrm (m.strm.getFreeBuf id pFree) .ready).useFresh id next)
      | [] =>
          if m.strm.hIoThread ∨ m.strm.pHead = [] then none
          else some { m.takeOver with producer := .writeBuffers next }
  | .writeBuffers next, _ =>
      match m.writer with
      | .writing [] | .done => some { m with
          writer := if next matches .close then .done else .idle
          producer := if next matches .close then .closed else .getFree next }
      | _ => none
  | .join, _ => match m.writer with
      | .done => some { m with producer := .closed }
      | _ => none
  | _, _ => none

/-- A step of `ssmR3StrmWriteBuffers`, or of the I/O thread around it. -/
def write : Option StrmMachine :=
  match m.writer with
  | .idle =>
      if m.strm.hIoThread then
        some (if m.strm.pHead = [] then { m with writer := .checking } else m.takeOver)
      else none
  | .checking => some { m with writer := if m.strm.fTerminating then .terminating else .idle }
  | .terminating => some { m with writer := if m.strm.pHead = [] then .done else .idle }
  | .writing [] => if m.strm.hIoThread then some { m with writer := .checking } else none
  | .writing (id :: pHead) => some { m with
      writes := m.writes ++ [((m.strm.bufs id).offStream, (m.strm.bufs id).bytes)]
      writer := .freeing id pHead }
  | .freeing id pHead => some { m with
      strm := { m.strm with pFree := id :: m.strm.pFree }
      writer := if (m.strm.bufs id).fEndOfStream then .done else .writing pHead }
  | .done => none

def next : StrmLabel → Option StrmMachine
  | .call c => match m.producer with
    | .ready => m.call c
    | _ => none
  | .producer => m.produce
  | .writer => m.write

/-- A stream with some buffers, as `ssmR3StrmInit` leaves it. -/
def init (cBuffers : Nat) (hIoThread : Bool) (bufs : Nat → SsmStrmBuf) : StrmMachine where
  strm := ⟨bufs, false, hIoThread, [], (List.range cBuffers).reverse, none, 0, 0, crc32Start, 0⟩
  producer := .ready
  writer := .idle
  reserved := none
  writes := []
  asked := []
  ended := false

end StrmMachine

def StrmStep (m : StrmMachine) (label : StrmLabel) (m' : StrmMachine) : Prop :=
  m.next label = some m'

end VBox.Vmm.Ssm
