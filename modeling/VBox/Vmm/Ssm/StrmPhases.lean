import VBox.Vmm.Ssm.StrmInvariant

/-!
How a stream goes towards its end.

It is `Open` until `ssmR3StrmSetEnd` or `ssmR3StrmClose`, `Sealing` while the last buffer is
got and flagged, and `Over` when nothing more will be queued. A flagged buffer is the last one
of the queue, so that the writer, which stops there, leaves nothing behind.
-/

namespace VBox.Vmm.Ssm

open List
open Function (update)

namespace StrmMachine

variable (m : StrmMachine)

def flagged (id : Nat) : Prop := (m.strm.bufs id).fEndOfStream = true

/-- Nothing is flagged, and the writer does not stop. -/
structure Quiet : Prop where
  queue : ∀ id ∈ m.queue, ¬ m.flagged id
  freeing : ∀ id pHead, m.writer = .freeing id pHead → ¬ m.flagged id
  running : m.writer ≠ .done ∧ m.writer ≠ .terminating
  open' : m.strm.fTerminating = false

/-- What the producer is in the middle of before the end is set. -/
def OpenPc : ProducerPc → Prop
  | .ready => True
  | .flush next => next ≠ .setEnd
  | .getFree next => next ≠ .setEnd ∧ next ≠ .close
  | .writeBuffers next => next ≠ .setEnd ∧ next ≠ .close
  | _ => False

structure Open : Prop extends m.Quiet where
  current : ∀ id, m.strm.pCur = some id → ¬ m.flagged id
  ended : m.ended = false
  pc : OpenPc m.producer

def SealingPc : ProducerPc → Prop
  | .getFree next => next = .setEnd
  | .writeBuffers next => next = .setEnd
  | .flush next => next = .ret
  | _ => False

structure Sealing : Prop extends m.Quiet where
  ended : m.ended = true
  pc : SealingPc m.producer

def OverPc (ended : Bool) : ProducerPc → Prop
  | .ready => ended = true
  | .writeBuffers next => next = .close
  | .join => True
  | .closed => True
  | _ => False

structure Over : Prop where
  empty : m.strm.pCur = none
  pc : OverPc m.ended m.producer
  last : ∀ id ∈ m.queue, m.flagged id → m.queue.getLast? = some id
  freeing : ∀ id pHead, m.writer = .freeing id pHead → m.flagged id → m.queue = []
  done : m.writer = .done → m.queue = []
  terminating : m.writer = .terminating → m.strm.fTerminating = true
  waits : m.strm.fTerminating = true → m.producer = .join ∨ m.producer = .closed
  closed : m.producer = .closed → m.queue = [] ∧ m.writer = .done

def Phase : Prop := m.Open ∨ m.Sealing ∨ m.Over

/-- What the producer has in its hands, and what it may ask for. -/
def Shape : Prop :=
  match m.producer with
  | .ready => True
  | .flush next => m.strm.pCur ≠ none ∧ ∀ cb, next = .reserve cb → cb ≤ cbBuf
  | .getFree next => m.strm.pCur = none ∧ ∀ cb, next = .reserve cb → cb ≤ cbBuf
  | .writeBuffers next => m.strm.pCur = none ∧ m.strm.pHead = [] ∧ m.strm.hIoThread = false ∧
      ∀ cb, next = .reserve cb → cb ≤ cbBuf
  | .join => m.strm.pCur = none ∧ m.strm.hIoThread = true
  | .closed => m.strm.pCur = none

/-- The invariant. -/
structure Sound (cBuffers : Nat) : Prop where
  placed : m.Placed cBuffers
  content : m.Content
  shape : m.Shape
  reserved : ∀ id off cb, m.reserved = some (id, off, cb) → m.producer = .ready ∧
    m.strm.pCur = some id ∧ off = m.strm.off ∧ off + cb ≤ cbBuf ∧ m.ended = false
  resting : m.strm.hIoThread = false → (∀ next, m.producer ≠ .writeBuffers next) →
    m.writer.held = []
  phase : m.Phase

variable {m} {m' : StrmMachine} {cBuffers id : Nat}

/-! ### Where a buffer is not -/

theorem Placed.nodup (placed : m.Placed cBuffers) : m.places.Nodup :=
  placed.nodup_iff.2 nodup_range

/-- The buffers that the writer has, or will take over. -/
def busy (m : StrmMachine) : List Nat := m.strm.pHead ++ m.writer.held

theorem queue_subset (m : StrmMachine) : m.queue ⊆ m.busy := by
  intro id mem
  rcases mem_append.1 mem with mem | mem
  · exact mem_append_right _ (m.writer.toWrite_sublist.subset mem)
  · exact mem_append_left _ (mem_reverse.1 mem)

theorem freeing_mem {pHead : List Nat} (eq : m.writer = .freeing id pHead) : id ∈ m.busy := by
  rw [busy, eq]
  exact mem_append_right _ mem_cons_self

theorem Placed.current_notMem (placed : m.Placed cBuffers) (cur : m.strm.pCur = some id) :
    id ∉ m.busy := by
  have nodup := placed.nodup
  rw [places, cur] at nodup
  obtain ⟨-, nodup, -⟩ := nodup_append.1 nodup
  obtain ⟨-, nodup', apart⟩ := nodup_append.1 nodup
  obtain ⟨-, -, apart'⟩ := nodup_append.1 nodup'
  intro mem
  rcases mem_append.1 mem with mem | mem
  · exact apart id mem id (by simp) rfl
  · exact apart' id mem id (by simp) rfl

theorem Placed.free_notMem (placed : m.Placed cBuffers) (free : id ∈ m.strm.pFree) :
    id ∉ m.busy := by
  have nodup := placed.nodup
  rw [places] at nodup
  obtain ⟨-, -, apart⟩ := nodup_append.1 nodup
  intro mem
  rcases mem_append.1 mem with mem | mem
  · exact apart id free id (by simp [mem]) rfl
  · exact apart id free id (by simp [mem]) rfl

/-! ### Phases -/

/-- The writer has the same buffers, with the same flags. -/
structure SameFlags (m m' : StrmMachine) : Prop where
  writer : m'.writer = m.writer
  pHead : m'.strm.pHead = m.strm.pHead
  fTerminating : m'.strm.fTerminating = m.strm.fTerminating
  flags : ∀ i ∈ m.busy, (m'.flagged i ↔ m.flagged i)

theorem SameFlags.queue (same : SameFlags m m') : m'.queue = m.queue := by
  rw [StrmMachine.queue, StrmMachine.queue, same.writer, same.pHead]

theorem SameFlags.of_bufs (writer : m'.writer = m.writer) (pHead : m'.strm.pHead = m.strm.pHead)
    (fTerminating : m'.strm.fTerminating = m.strm.fTerminating)
    (bufs : m'.strm.bufs = m.strm.bufs) : SameFlags m m' := by
  refine ⟨writer, pHead, fTerminating, ?_⟩
  intro i _
  rw [flagged, flagged, bufs]

theorem SameFlags.of_update {b : SsmStrmBuf} (writer : m'.writer = m.writer)
    (pHead : m'.strm.pHead = m.strm.pHead)
    (fTerminating : m'.strm.fTerminating = m.strm.fTerminating)
    (bufs : m'.strm.bufs = update m.strm.bufs id b) (fresh : id ∉ m.busy) : SameFlags m m' := by
  refine ⟨writer, pHead, fTerminating, ?_⟩
  intro i mem
  have ne : i ≠ id := by
    rintro rfl
    exact fresh mem
  rw [flagged, flagged, bufs, Function.update_of_ne ne]

theorem Quiet.congr (quiet : m.Quiet) (same : SameFlags m m') : m'.Quiet := by
  refine ⟨?_, ?_, ?_, ?_⟩
  · intro i mem
    rw [same.queue] at mem
    rw [same.flags i (m.queue_subset mem)]
    exact quiet.queue i mem
  · intro i pHead eq
    rw [same.writer] at eq
    rw [same.flags i (freeing_mem eq)]
    exact quiet.freeing i pHead eq
  · rw [same.writer]
    exact quiet.running
  · rw [same.fTerminating]
    exact quiet.open'

/-- Before its end a stream at rest is open. -/
theorem Phase.open_of_ready (phase : m.Phase) (ready : m.producer = .ready)
    (ended : m.ended = false) : m.Open := by
  rcases phase with phase | phase | phase
  · exact phase
  · cases ended.symm.trans phase.ended
  · have pc := phase.pc
    rw [ready, ended] at pc
    cases pc

theorem Phase.over_of_ready (phase : m.Phase) (ready : m.producer = .ready)
    (ended : m.ended = true) : m.Over := by
  rcases phase with phase | phase | phase
  · cases ended.symm.trans phase.ended
  · have pc := phase.pc
    rw [ready] at pc
    cases pc
  · exact phase

end StrmMachine

end VBox.Vmm.Ssm
