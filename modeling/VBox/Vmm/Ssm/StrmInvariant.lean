import VBox.Vmm.Ssm.Strm
import Mathlib.Data.List.Nodup
import Mathlib.Data.List.Perm.Basic

/-!
What holds of a stream in every state: where its buffers are, what is in them, and how its end
is announced.
-/

namespace VBox.Vmm.Ssm

open VBox.Lib List
open Function (update)

/-! ### Bytes -/

theorem length_bytesAt (b : Buf) (off n : Nat) : (bytesAt b off n).length = n := by
  simp [bytesAt]

theorem bytesAt_append (b : Buf) (off m n : Nat) :
    bytesAt b off m ++ bytesAt b (off + m) n = bytesAt b off (m + n) := by
  unfold bytesAt
  rw [range_add, map_append, map_map]
  congr 1
  apply map_congr_left
  intro i _
  simp [Nat.add_assoc]

theorem bytesAt_congr {b c : Buf} {off n : Nat} (agree : ∀ i < n, b (off + i) = c (off + i)) :
    bytesAt b off n = bytesAt c off n := by
  apply map_congr_left
  intro i mem
  exact agree i (mem_range.1 mem)

/-- What has been copied to the end of some bytes stands behind them. -/
theorem bytesAt_memcpy (b : Buf) (off : Nat) (bytes : List UInt8) :
    bytesAt (memcpy b off bytes) 0 (off + bytes.length) = bytesAt b 0 off ++ bytes := by
  rw [← bytesAt_append]
  congr 1
  · apply bytesAt_congr
    intro i lt
    rw [memcpy, if_neg (by omega)]
  · apply ext_getElem
    · rw [length_bytesAt]
    · intro i lt lt'
      simp [bytesAt, memcpy, lt']

theorem bytesAt_split (b : Buf) {m n : Nat} (le : m ≤ n) :
    bytesAt b 0 n = bytesAt b 0 m ++ bytesAt b m (n - m) := by
  have split := bytesAt_append b 0 m (n - m)
  rw [Nat.zero_add, Nat.add_sub_cancel' le] at split
  exact split.symm

theorem crc32Process_append (crc : UInt32) (bytes more : List UInt8) :
    crc32Process crc (bytes ++ more) = crc32Process (crc32Process crc bytes) more :=
  foldl_append

/-! ### Offsets -/

/-- Blocks at consecutive offsets from a start to an end, as 64-bit numbers. -/
def Consecutive : Nat → List (Nat × Nat) → Nat → Prop
  | start, [], stop => start = stop
  | start, (off, cb) :: blocks, stop => off = start ∧ Consecutive ((start + cb) % 2 ^ 64) blocks stop

theorem Consecutive.snoc {start stop : Nat} {blocks : List (Nat × Nat)}
    (row : Consecutive start blocks stop) (cb : Nat) :
    Consecutive start (blocks ++ [(stop, cb)]) ((stop + cb) % 2 ^ 64) := by
  induction blocks generalizing start with
  | nil =>
    cases row
    exact ⟨rfl, rfl⟩
  | cons block blocks ih => exact ⟨row.1, ih row.2⟩

/-! ### What a state holds -/

namespace WriterPc

/-- The buffers on the list being written. -/
def held : WriterPc → List Nat
  | .writing pHead => pHead
  | .freeing pCur pHead => pCur :: pHead
  | _ => []

/-- Those that are still to be written. -/
def toWrite : WriterPc → List Nat
  | .writing pHead => pHead
  | .freeing _ pHead => pHead
  | _ => []

theorem toWrite_sublist (w : WriterPc) : w.toWrite.Sublist w.held := by
  cases w <;> simp [toWrite, held]

end WriterPc

/-- The bytes of a write that are not in a buffer yet. -/
def Then.todo : Then → List UInt8
  | .write bytes => bytes
  | _ => []

def ProducerPc.todo : ProducerPc → List UInt8
  | .flush next => next.todo
  | .getFree next => next.todo
  | .writeBuffers next => next.todo
  | _ => []

namespace StrmMachine

variable (m : StrmMachine)

/-- The buffers on their way to `pfnWrite`, in order. -/
def queue : List Nat := m.writer.toWrite ++ m.strm.pHead.reverse

/-- What is in the current buffer. -/
def current : List UInt8 :=
  match m.strm.pCur with
  | none => []
  | some id => bytesAt (m.strm.bufs id).abData 0 m.strm.off

/-- What has been flushed, written or not. -/
def flushed : List UInt8 :=
  m.writes.flatMap (·.2) ++ m.queue.flatMap fun id => (m.strm.bufs id).bytes

/-- The offsets and sizes of what has been flushed. -/
def blocks : List (Nat × Nat) :=
  m.writes.map (fun w => (w.1, w.2.length)) ++
    m.queue.map fun id => ((m.strm.bufs id).offStream, (m.strm.bufs id).cb)

/-- Where the buffers are. -/
def places : List Nat :=
  m.strm.pFree ++ (m.strm.pHead ++ (m.writer.held ++ m.strm.pCur.toList))

/-- Every buffer is in exactly one place. -/
def Placed (cBuffers : Nat) : Prop := m.places.Perm (List.range cBuffers)

/-- No byte is lost, and the checksum covers what it says. -/
structure Content : Prop where
  bytes : m.flushed ++ m.current ++ m.producer.todo = m.asked
  row : Consecutive 0 m.blocks m.strm.offCurStream
  crc : m.strm.u32StreamCRC =
    crc32Process crc32Start (m.flushed ++ m.current.take m.strm.offStreamCRC)
  fits : m.strm.off ≤ cbBuf
  behind : m.strm.offStreamCRC ≤ m.strm.off
  empty : m.strm.pCur = none → m.strm.off = 0

/-! ### Content -/

variable {m} {m' : StrmMachine} {id : Nat}

/-- The data of a buffer that is not queued does not matter to those that are. -/
theorem queued_congr (ids : List Nat) {bufs bufs' : Nat → SsmStrmBuf}
    (same : ∀ i ∈ ids, (bufs' i).bytes = (bufs i).bytes ∧ (bufs' i).offStream = (bufs i).offStream ∧
      (bufs' i).cb = (bufs i).cb) :
    (ids.flatMap fun i => (bufs' i).bytes) = (ids.flatMap fun i => (bufs i).bytes) ∧
      (ids.map fun i => ((bufs' i).offStream, (bufs' i).cb)) =
        ids.map fun i => ((bufs i).offStream, (bufs i).cb) := by
  constructor
  · rw [flatMap_def, flatMap_def, map_congr_left fun i mem => (same i mem).1]
  · apply map_congr_left
    intro i mem
    rw [(same i mem).2.1, (same i mem).2.2]

/-- The buffers that are queued are the same and hold the same. -/
structure SameQueue (m m' : StrmMachine) : Prop where
  writes : m'.writes = m.writes
  queue : m'.queue = m.queue
  data : ∀ i ∈ m.queue, (m'.strm.bufs i).bytes = (m.strm.bufs i).bytes ∧
    (m'.strm.bufs i).offStream = (m.strm.bufs i).offStream ∧
    (m'.strm.bufs i).cb = (m.strm.bufs i).cb

theorem SameQueue.flushed (same : SameQueue m m') : m'.flushed = m.flushed := by
  rw [StrmMachine.flushed, StrmMachine.flushed, same.writes, same.queue,
    (queued_congr m.queue same.data).1]

theorem SameQueue.blocks (same : SameQueue m m') : m'.blocks = m.blocks := by
  rw [StrmMachine.blocks, StrmMachine.blocks, same.writes, same.queue,
    (queued_congr m.queue same.data).2]

/-- Only one buffer changes, and it is not queued. -/
theorem SameQueue.of_update {b : SsmStrmBuf} (writes : m'.writes = m.writes)
    (queue : m'.queue = m.queue) (bufs : m'.strm.bufs = update m.strm.bufs id b)
    (fresh : id ∉ m.queue) : SameQueue m m' := by
  refine ⟨writes, queue, ?_⟩
  intro i mem
  have ne : i ≠ id := by
    rintro rfl
    exact fresh mem
  rw [bufs, Function.update_of_ne ne]
  exact ⟨rfl, rfl, rfl⟩

theorem SameQueue.of_bufs (writes : m'.writes = m.writes) (queue : m'.queue = m.queue)
    (bufs : m'.strm.bufs = m.strm.bufs) : SameQueue m m' := by
  refine ⟨writes, queue, ?_⟩
  intro i _
  rw [bufs]
  exact ⟨rfl, rfl, rfl⟩

namespace Content

/-- The same bytes are queued, and the current buffer is the same. -/
theorem congr (content : m.Content) (flushed : m'.flushed = m.flushed)
    (blocks : m'.blocks = m.blocks) (current : m'.current = m.current)
    (pCur : m'.strm.pCur = m.strm.pCur) (off : m'.strm.off = m.strm.off)
    (offCurStream : m'.strm.offCurStream = m.strm.offCurStream)
    (u32StreamCRC : m'.strm.u32StreamCRC = m.strm.u32StreamCRC)
    (offStreamCRC : m'.strm.offStreamCRC = m.strm.offStreamCRC)
    (asked : m.flushed ++ m.current ++ m'.producer.todo = m'.asked) : m'.Content where
  bytes := by rw [flushed, current, asked]
  row := by rw [blocks, offCurStream]; exact content.row
  crc := by rw [u32StreamCRC, flushed, current, offStreamCRC]; exact content.crc
  fits := off ▸ content.fits
  behind := by rw [off, offStreamCRC]; exact content.behind
  empty none := by rw [off]; exact content.empty (pCur ▸ none)

theorem current_length (cur : m.strm.pCur = some id) : m.current.length = m.strm.off := by
  unfold current
  rw [cur]
  exact length_bytesAt _ _ _

/-- Bytes are copied to the end of the current buffer. -/
theorem append (content : m.Content) (cur : m.strm.pCur = some id) (fresh : id ∉ m.queue)
    {bytes : List UInt8} (room : m.strm.off + bytes.length ≤ cbBuf)
    (strm : m'.strm = m.strm.append id bytes) (writer : m'.writer = m.writer)
    (writes : m'.writes = m.writes)
    (asked : m.flushed ++ m.current ++ (bytes ++ m'.producer.todo) = m'.asked) : m'.Content := by
  have same : SameQueue m m' := .of_update writes
    (by rw [StrmMachine.queue, StrmMachine.queue, writer, strm]; rfl) (by rw [strm]; rfl) fresh
  have more : m'.current = m.current ++ bytes := by
    have cur' : m'.strm.pCur = some id := by rw [strm]; exact cur
    unfold current
    rw [cur', cur, strm]
    simp only [SsmStrm.append, SsmStrm.setBuf, Function.update_self]
    exact bytesAt_memcpy _ _ _
  have off : m'.strm.off = m.strm.off + bytes.length := by rw [strm]; rfl
  have behind : m'.strm.offStreamCRC = m.strm.offStreamCRC := by rw [strm]; rfl
  refine ⟨?_, ?_, ?_, ?_, ?_, ?_⟩
  · rw [same.flushed, more, ← asked]
    simp only [append_assoc]
  · rw [same.blocks, strm]
    exact content.row
  · rw [same.flushed, more, behind, take_append_of_le_length
      (by rw [current_length cur]; exact content.behind), strm]
    exact content.crc
  · rw [off]
    exact room
  · rw [off, behind]
    exact content.behind.trans (Nat.le_add_right _ _)
  · intro none
    rw [strm] at none
    cases cur.symm.trans none

/-- The current buffer goes to the end of the queue. -/
theorem flush (content : m.Content) (cur : m.strm.pCur = some id) (fresh : id ∉ m.queue)
    (strm : m'.strm = m.strm.flushCurBuf id) (writer : m'.writer = m.writer)
    (writes : m'.writes = m.writes) (asked : m'.asked = m.asked)
    (todo : m'.producer.todo = m.producer.todo) : m'.Content := by
  have queue : m'.queue = m.queue ++ [id] := by
    rw [StrmMachine.queue, StrmMachine.queue, writer, strm]
    simp [SsmStrm.flushCurBuf]
  have current : m.current = bytesAt (m.strm.bufs id).abData 0 m.strm.off := by
    unfold StrmMachine.current
    rw [cur]
  have bufs : m'.strm.bufs = update m.strm.bufs id
      { m.strm.bufs id with cb := m.strm.off, offStream := m.strm.offCurStream } := by
    rw [strm]
    rfl
  have rest := @queued_congr m.queue m.strm.bufs m'.strm.bufs (by
    intro i mem
    have ne : i ≠ id := by
      rintro rfl
      exact fresh mem
    rw [bufs, Function.update_of_ne ne]
    exact ⟨rfl, rfl, rfl⟩)
  have flushed : m'.flushed = m.flushed ++ m.current := by
    rw [StrmMachine.flushed, StrmMachine.flushed, writes, queue, flatMap_append, rest.1, current,
      bufs]
    simp [SsmStrmBuf.bytes]
  have blocks : m'.blocks = m.blocks ++ [(m.strm.offCurStream, m.strm.off)] := by
    rw [StrmMachine.blocks, StrmMachine.blocks, writes, queue, map_append, rest.2, bufs]
    simp
  have none : m'.strm.pCur = none := by rw [strm]; rfl
  have empty : m'.current = [] := by
    unfold StrmMachine.current
    rw [none]
  refine ⟨?_, ?_, ?_, ?_, ?_, ?_⟩
  · rw [flushed, empty, asked, todo, append_nil]
    exact content.bytes
  · rw [blocks, strm]
    exact content.row.snoc m.strm.off
  · have crc : m'.strm.u32StreamCRC = if m.strm.offStreamCRC < m.strm.off then
        crc32Process m.strm.u32StreamCRC (bytesAt (m.strm.bufs id).abData m.strm.offStreamCRC
          (m.strm.off - m.strm.offStreamCRC)) else m.strm.u32StreamCRC := by
      rw [strm]
      rfl
    rw [crc, flushed, empty, take_nil, append_nil, content.crc, current,
      bytesAt_split _ content.behind]
    rw [take_left' (length_bytesAt _ _ _)]
    split
    · rw [← crc32Process_append, append_assoc]
    · rename_i done
      have zero : m.strm.off - m.strm.offStreamCRC = 0 := by omega
      rw [zero]
      simp [bytesAt]
  · rw [strm]
    exact Nat.zero_le _
  · rw [strm]
    exact le_refl _
  · intro _
    rw [strm]
    rfl

/-- A free buffer becomes the current one. -/
theorem getFree (content : m.Content) (cur : m.strm.pCur = none) (fresh : id ∉ m.queue)
    {pFree : List Nat} (strm : m'.strm = m.strm.getFreeBuf id pFree)
    (writer : m'.writer = m.writer) (writes : m'.writes = m.writes)
    (asked : m.flushed ++ m'.producer.todo = m'.asked) : m'.Content := by
  have same : SameQueue m m' := .of_update writes
    (by rw [StrmMachine.queue, StrmMachine.queue, writer, strm]; rfl) (by rw [strm]; rfl) fresh
  have zero := content.empty cur
  have current : m.current = [] := by
    unfold StrmMachine.current
    rw [cur]
  have current' : m'.current = [] := by
    have some : m'.strm.pCur = some id := by rw [strm]; rfl
    have off : m'.strm.off = 0 := by rw [strm]; exact zero
    unfold StrmMachine.current
    rw [some, off]
    rfl
  refine ⟨?_, ?_, ?_, ?_, ?_, ?_⟩
  · rw [same.flushed, current', append_nil, asked]
  · rw [same.blocks, strm]
    exact content.row
  · have crc := content.crc
    rw [current, take_nil] at crc
    rw [same.flushed, current', take_nil, strm]
    exact crc
  · rw [strm]
    exact content.fits
  · rw [strm]
    exact content.behind
  · intro none
    rw [strm] at none
    cases none

end Content

end StrmMachine

end VBox.Vmm.Ssm
