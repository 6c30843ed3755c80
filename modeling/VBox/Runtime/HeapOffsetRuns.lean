import VBox.Lib.Run
import VBox.Runtime.HeapOffsetAlloc
import Mathlib.Data.List.Nodup

/-!
Runs of the offset heap.

The heap is used by callers who allocate, free what they hold and write into it.
`run_sound` says that it stays whole as long as no split for an alignment is made in front
of another free block. `spoils_neighbour` is a run in which one is.
-/

namespace VBox.Runtime

open VBox.Lib List

/-- A block a caller holds: its user bytes, and what was asked for. -/
structure LiveBlock where
  pv : Nat
  cb : Nat
  cbAlignment : Nat
  deriving DecidableEq

structure HeapMachine where
  heap : OffsetHeap
  live : List LiveBlock

inductive HeapLabel where
  | alloc (cb cbAlignment : Nat)
  | free (pv : Nat)
  | write (pv x v : Nat)

def HeapMachine.Holds (m : HeapMachine) (pv : Nat) : Prop := pv ∈ m.live.map LiveBlock.pv

instance (m : HeapMachine) (pv : Nat) : Decidable (m.Holds pv) :=
  inferInstanceAs (Decidable (pv ∈ _))

def HeapMachine.step (m : HeapMachine) : HeapLabel → Option HeapMachine
  | .alloc cb cbAlignment =>
      (rtHeapOffsetAlloc m.heap cb cbAlignment).map fun (heap, pv?) =>
        ⟨heap, m.live ++ (pv?.map fun pv => ⟨pv, cb, cbAlignment⟩).toList⟩
  | .free pv =>
      if m.Holds pv then
        (rtHeapOffsetFree m.heap (some pv)).map fun heap =>
          ⟨heap, m.live.filter fun e => e.pv ≠ pv⟩
      else none
  | .write pv x v =>
      if m.Holds pv ∧ pv ≤ x ∧ x < pv + rtHeapOffsetSize m.heap pv then
        some { m with heap := { m.heap with mem := m.heap.mem.put x v } }
      else none

/-- The alignments a caller may ask for. -/
def HeapLabel.Valid : HeapLabel → Prop
  | .alloc _ cbAlignment => cbAlignment = 0 ∨ PowerOfTwo cbAlignment
  | _ => True

def HeapStep (m : HeapMachine) (label : HeapLabel) (m' : HeapMachine) : Prop :=
  label.Valid ∧ m.step label = some m'

/-- The size does not wrap, and no split for the alignment is made in front of another free
block. -/
def Unspoilt (m : HeapMachine) : HeapLabel → Prop
  | .alloc cb cbAlignment => cb + 15 < 2 ^ 64 ∧ SplitsLast m.heap cb cbAlignment
  | _ => True

instance (m : HeapMachine) : DecidablePred (Unspoilt m)
  | .alloc .. => inferInstanceAs (Decidable (_ ∧ _))
  | .free _ => inferInstanceAs (Decidable True)
  | .write .. => inferInstanceAs (Decidable True)

/-- The blocks in use are those that are held. -/
structure HeapMachine.Ok (m : HeapMachine) (blocks : List HeapBlock) : Prop where
  heap : HeapOk m.heap.mem blocks
  base : m.heap.pHeapInt % 16 = 0
  nodup : (m.live.map LiveBlock.pv).Nodup
  held : ∀ b ∈ usedBlocks blocks, m.Holds (b.off + 16)
  used : ∀ e ∈ m.live, ∃ b ∈ usedBlocks blocks, e.pv = b.off + 16 ∧ e.cb ≤ b.cb ∧
    (e.cbAlignment ≠ 0 → e.cbAlignment ∣ m.heap.pHeapInt + e.pv)

variable {pv cb cbAlignment : Nat} {heap : OffsetHeap} {mem : Words}

section Steps

variable {m m' : HeapMachine} {blocks : List HeapBlock}

/-- A block that is held, with the blocks around it. -/
theorem HeapMachine.Ok.held_block (ok : m.Ok blocks) (holds : m.Holds pv) :
    ∃ xs b ys, blocks = xs ++ b :: ys ∧ b.free = false ∧ pv = b.off + 16 := by
  obtain ⟨e, member, rfl⟩ := List.mem_map.mp holds
  obtain ⟨b, inUse, at', -⟩ := ok.used e member
  obtain ⟨inside, used⟩ := mem_usedBlocks.mp inUse
  obtain ⟨xs, ys, split⟩ := append_of_mem inside
  exact ⟨xs, b, ys, split, used, at'⟩

variable {xs ys : List HeapBlock} {b : HeapBlock}

theorem rtHeapOffsetSize_eq (ok : HeapOk heap.mem (xs ++ b :: ys)) :
    rtHeapOffsetSize heap (b.off + 16) = b.cb := by
  obtain ⟨hi, area, -, around, words, -⟩ := ok.block rfl
  have small := around.small
  have upper := around.upper
  have isEnd : endOf heap.mem (nextOff ys) = hi := around.end_eq
  rw [rtHeapOffsetSize, Nat.add_sub_cancel, coreNextAt, words.coreNext, isEnd, sub32_sub32 (by omega) (by omega)]
  omega

theorem Lists.not_mem_offs (lists : Lists mem (xs ++ b :: ys)) : b.off ∉ offs (xs ++ ys) := by
  have nodup : (offs xs ++ b.off :: offs ys).Nodup := by
    have whole := lists.tiles.nodup
    rw [offs_append] at whole
    exact whole
  rw [nodup_middle, nodup_cons] at nodup
  rw [offs_append]
  exact nodup.1

/-- What the bytes of the blocks held before and after a step are. -/
def BytesKept (m m' : HeapMachine) : Prop :=
  ∀ e ∈ m.live, e ∈ m'.live → ∀ x, e.pv ≤ x → x < e.pv + rtHeapOffsetSize m.heap e.pv →
    m'.heap.mem x = m.heap.mem x

variable {mem' : Words}

theorem bytesKept_of {live' : List LiveBlock} {kept : List HeapBlock} (ok : m.Ok blocks)
    (user : UserKept m.heap.mem mem' kept)
    (still : ∀ e ∈ m.live, e ∈ live' → ∀ b ∈ usedBlocks blocks, e.pv = b.off + 16 → b ∈ kept) :
    BytesKept m ⟨{ m.heap with mem := mem' }, live'⟩ := by
  intro e member member' x lower upper
  obtain ⟨b, inUse, at', -⟩ := ok.used e member
  obtain ⟨inside, used⟩ := mem_usedBlocks.mp inUse
  obtain ⟨xs, ys, split⟩ := append_of_mem inside
  have heap := ok.heap
  rw [split] at heap
  rw [at', rtHeapOffsetSize_eq heap] at upper
  exact user.user b (still e member member' b inUse at') used x (by omega) upper

theorem alloc_step (ok : m.Ok blocks) (valid : (HeapLabel.alloc cb cbAlignment).Valid)
    (unspoilt : Unspoilt m (.alloc cb cbAlignment)) :
    ∃ m' blocks', m.step (.alloc cb cbAlignment) = some m' ∧ m'.Ok blocks' ∧ BytesKept m m' ∧
      m'.heap.mem cbHeapAt = m.heap.mem cbHeapAt := by
  obtain ⟨result, found, allocated⟩ :=
    rtHeapOffsetAlloc_ok ok.heap ok.base valid unspoilt.1 unspoilt.2
  rw [HeapMachine.step, found, Option.map_some]
  rcases allocated with rfl | ⟨mem', us, vs, b, rfl, used, heap, same, user, room, divides⟩
  · refine ⟨_, blocks, rfl, ?_, fun _ _ _ _ _ _ => rfl, rfl⟩
    simp only [Option.map_none, Option.toList_none, append_nil]
    exact ok
  · refine ⟨_, us ++ b :: vs, rfl, ⟨heap, ok.base, ?_, ?_, ?_⟩, ?_, user.cbHeap⟩
    · -- the block is not one that is held already
      rw [map_append, nodup_append]
      refine ⟨ok.nodup, nodup_singleton _, ?_⟩
      intro pv holds pv' new
      rw [mem_singleton.mp new]
      rintro rfl
      obtain ⟨e, member, at'⟩ := List.mem_map.mp holds
      obtain ⟨c, inUse, atC, -⟩ := ok.used e member
      rw [← same] at inUse
      have inside := (mem_usedBlocks.mp inUse).1
      have sameOff : c.off = b.off := by
        have : e.pv = b.off + 16 := at'
        omega
      refine heap.lists.not_mem_offs ?_
      rw [← sameOff]
      exact List.mem_map_of_mem inside
    · intro c inUse
      rw [HeapMachine.Holds, map_append]
      have : c = b ∨ c ∈ usedBlocks (us ++ vs) := by
        obtain ⟨inside, usedC⟩ := mem_usedBlocks.mp inUse
        simp only [mem_append, mem_cons] at inside
        rw [mem_usedBlocks, mem_append]
        rcases inside with inside | rfl | inside
        · exact .inr ⟨.inl inside, usedC⟩
        · exact .inl rfl
        · exact .inr ⟨.inr inside, usedC⟩
      rcases this with rfl | old
      · exact mem_append_right _ (mem_singleton_self _)
      · rw [same] at old
        exact mem_append_left _ (ok.held c old)
    · intro e member
      rcases mem_append.mp member with member | member
      · obtain ⟨c, inUse, spec⟩ := ok.used e member
        rw [← same] at inUse
        obtain ⟨inside, usedC⟩ := mem_usedBlocks.mp inUse
        refine ⟨c, mem_usedBlocks.mpr ⟨?_, usedC⟩, spec⟩
        rcases mem_append.mp inside with inside | inside <;> simp [inside]
      · have new : e = ⟨b.off + 16, cb, cbAlignment⟩ := mem_singleton.mp member
        rw [new]
        exact ⟨b, mem_usedBlocks.mpr ⟨by simp, used⟩, rfl, room, divides⟩
    · refine bytesKept_of ok user fun e _ _ c inUse _ => ?_
      rw [← same] at inUse
      exact (mem_usedBlocks.mp inUse).1

theorem free_step (ok : m.Ok blocks) (holds : m.Holds pv) :
    ∃ m' blocks', m.step (.free pv) = some m' ∧ m'.Ok blocks' ∧ BytesKept m m' ∧
      m'.heap.mem cbHeapAt = m.heap.mem cbHeapAt := by
  obtain ⟨xs, b, ys, rfl, used, rfl⟩ := ok.held_block holds
  obtain ⟨mem', blocks', freed, heap, same, user⟩ := rtHeapOffsetFreeBlock_ok ok.heap used
  have self : m.heap.mem (offSelfAt b.off) = b.off := ok.heap.lists.words.offSelf
  have result : rtHeapOffsetFree m.heap (some (b.off + 16)) = some { m.heap with mem := mem' } := by
    rw [rtHeapOffsetFree]
    dsimp only
    rw [Nat.add_sub_cancel, if_pos self, freed]
  have others : ∀ c ∈ usedBlocks (xs ++ b :: ys), c.off ≠ b.off → c ∈ usedBlocks (xs ++ ys) := by
    intro c inUse other
    obtain ⟨inside, usedC⟩ := mem_usedBlocks.mp inUse
    simp only [mem_append, mem_cons] at inside
    rw [mem_usedBlocks, mem_append]
    rcases inside with inside | rfl | inside
    · exact ⟨.inl inside, usedC⟩
    · exact absurd rfl other
    · exact ⟨.inr inside, usedC⟩
  have apart : ∀ c ∈ usedBlocks (xs ++ ys), c.off ≠ b.off := by
    intro c inUse sameOff
    refine ok.heap.lists.not_mem_offs ?_
    rw [← sameOff]
    exact List.mem_map_of_mem (mem_usedBlocks.mp inUse).1
  rw [HeapMachine.step, if_pos holds, result, Option.map_some]
  refine ⟨_, blocks', rfl, ⟨heap, ok.base, ?_, ?_, ?_⟩, ?_, user.cbHeap⟩
  · exact ok.nodup.sublist (filter_sublist.map _)
  · intro c inUse
    rw [same] at inUse
    have old : c ∈ usedBlocks (xs ++ b :: ys) := by
      obtain ⟨inside, usedC⟩ := mem_usedBlocks.mp inUse
      refine mem_usedBlocks.mpr ⟨?_, usedC⟩
      rcases mem_append.mp inside with inside | inside <;> simp [inside]
    obtain ⟨e, member, at'⟩ := List.mem_map.mp (ok.held c old)
    have other := apart c inUse
    refine List.mem_map.mpr ⟨e, mem_filter.mpr ⟨member, ?_⟩, at'⟩
    rw [at']
    simpa using other
  · intro e member
    obtain ⟨inside, other⟩ := mem_filter.mp member
    obtain ⟨c, inUse, at', spec⟩ := ok.used e inside
    rw [at'] at other
    rw [same]
    exact ⟨c, others c inUse (by simpa using other), at', spec⟩
  · refine bytesKept_of ok user fun e _ member' c inUse at' => ?_
    obtain ⟨-, other⟩ := mem_filter.mp member'
    rw [at'] at other
    exact (mem_usedBlocks.mp (others c inUse (by simpa using other))).1

/-- Only the words of the anchor and of the headers matter. -/
theorem HeapOk.congr (ok : HeapOk mem blocks) (anchor : ∀ x, x < 32 → mem' x = mem x)
    (header : ∀ a ∈ blocks, ∀ k, (k < 16 ∨ a.free = true ∧ k < 32) →
      mem' (a.off + k) = mem (a.off + k)) : HeapOk mem' blocks := by
  have heap : mem' cbHeapAt = mem cbHeapAt := anchor 4 (by decide)
  refine ⟨⟨?_, ?_, ?_, ?_, ?_, ?_, ?_, ?_⟩, ?_, ?_, ok.apart⟩
  · exact (anchor 0 (by decide)).trans ok.lists.magic
  · rw [heap]
    exact ok.lists.small
  · rw [heap]
    exact ok.lists.tiles
  · refine ok.lists.core.congr fun off member => ?_
    obtain ⟨a, inside, rfl⟩ := List.mem_map.mp member
    exact ⟨header a inside 0 (.inl (by decide)), header a inside 4 (.inl (by decide))⟩
  · intro a member
    obtain ⟨self, flags⟩ := ok.lists.header a member
    exact ⟨(header a member 8 (.inl (by decide))).trans self,
      (header a member 12 (.inl (by decide))).trans flags⟩
  · refine ok.lists.free.congr fun off member => ?_
    obtain ⟨a, inside, free, rfl⟩ := mem_freeOffs.mp member
    exact ⟨header a inside 16 (.inr ⟨free, by decide⟩), header a inside 20 (.inr ⟨free, by decide⟩)⟩
  · exact (anchor 12 (by decide)).trans ok.lists.head
  · exact (anchor 16 (by decide)).trans ok.lists.tail
  · intro a member free
    exact (header a member 24 (.inr ⟨free, by decide⟩)).trans (ok.cb a member free)
  · exact (anchor 8 (by decide)).trans ok.cbFree

theorem write_step {x v : Nat} (ok : m.Ok blocks) (step : m.step (.write pv x v) = some m') :
    m'.Ok blocks ∧ m'.heap.mem cbHeapAt = m.heap.mem cbHeapAt := by
  rw [HeapMachine.step] at step
  split at step
  case isFalse => cases step
  case isTrue inside =>
    cases step
    obtain ⟨holds, lower, upper⟩ := inside
    obtain ⟨xs, b, ys, rfl, used, rfl⟩ := ok.held_block holds
    rw [rtHeapOffsetSize_eq ok.heap] at upper
    obtain ⟨hi, area, -, around, -, -⟩ := ok.heap.block rfl
    have lowerB := around.lower
    have anchor : ∀ y, y < 32 → m.heap.mem.put x v y = m.heap.mem y :=
      fun y less => Words.put_ne (by omega)
    refine ⟨⟨ok.heap.congr anchor ?_, ok.base, ok.nodup, ok.held, ok.used⟩, anchor 4 (by decide)⟩
    intro a member k less
    refine Words.put_ne ?_
    rcases before_or_before ok.heap.lists.tiles.pairwise member
      (mem_append_right xs (mem_cons_self ..)) with rfl | before | behind
    · rw [used] at less
      have : k < 16 := less.resolve_right fun free => by cases free.1
      omega
    · have := before.1
      have := before.2
      omega
    · have := behind.1
      omega

/-- One step keeps the heap. -/
theorem step_sound {label : HeapLabel} (ok : m.Ok blocks) (unspoilt : Unspoilt m label)
    (step : HeapStep m label m') :
    ∃ blocks', m'.Ok blocks' ∧ m'.heap.mem cbHeapAt = m.heap.mem cbHeapAt := by
  obtain ⟨valid, step⟩ := step
  cases label with
  | alloc cb cbAlignment =>
    obtain ⟨m₁, blocks', taken, ok', -, size⟩ := alloc_step ok valid unspoilt
    rw [taken] at step
    cases step
    exact ⟨blocks', ok', size⟩
  | free pv =>
    by_cases holds : m.Holds pv
    · obtain ⟨m₁, blocks', taken, ok', -, size⟩ := free_step ok holds
      rw [taken] at step
      cases step
      exact ⟨blocks', ok', size⟩
    · rw [HeapMachine.step, if_neg holds] at step
      cases step
  | write pv x v =>
    obtain ⟨ok', size⟩ := write_step ok step
    exact ⟨blocks, ok', size⟩

end Steps

section Runs

theorem and_31 (x : Nat) : x &&& 31 = x % 32 := Nat.and_two_pow_sub_one_eq_mod x 5

theorem init_ok {pvMemory cbMemory : Nat}
    (init : rtHeapOffsetInit mem pvMemory cbMemory = some heap) :
    HeapOk heap.mem [⟨32, heap.mem cbHeapAt - 48, true⟩] ∧ heap.pHeapInt % 16 = 0 := by
  rw [rtHeapOffsetInit] at init
  split at init
  case isFalse => cases init
  case isTrue valid =>
    obtain ⟨least, most, -⟩ := valid
    cases init
    rw [and_31]
    have off : (if pvMemory % 32 ≠ 0 then 32 - pvMemory % 32 else 0) < 32 := by
      split <;> omega
    have base : (pvMemory + if pvMemory % 32 ≠ 0 then 32 - pvMemory % 32 else 0) % 16 = 0 := by
      split <;> omega
    generalize (if pvMemory % 32 ≠ 0 then 32 - pvMemory % 32 else 0) = off' at off base
    generalize size : (cbMemory - off') / 16 * 16 = cbHeap
    have aligned : cbHeap % 16 = 0 := by omega
    have large : 4000 ≤ cbHeap := by omega
    have small : cbHeap < 2 ^ 32 := by omega
    have free : sub32 (sub32 cbHeap 16) 32 = cbHeap - 48 := by
      have first : sub32 cbHeap 16 = cbHeap - 16 := sub32_eq (by omega) small
      rw [first, sub32_eq (by omega) (by omega)]
      omega
    refine ⟨?_, base⟩
    simp (disch := decide) only [Words.store, u32MagicAt, cbHeapAt, cbFreeAt, offFreeHeadAt,
      offFreeTailAt, coreNextAt, corePrevAt, offSelfAt, fFlagsAt, offNextAt, offPrevAt, cbAt, free,
      Words.put_self, Words.put_ne]
    have frees : freeOffs [⟨32, cbHeap - 48, true⟩] = [32] := rfl
    have sum : freeSize [⟨32, cbHeap - 48, true⟩] = cbHeap - 48 := rfl
    refine ⟨⟨?_, ?_, ⟨rfl, ?_, ?_, ?_⟩, ⟨?_, ?_, trivial⟩, ?_, ⟨?_, ?_, trivial⟩, ?_, ?_⟩, ?_, ?_,
      isChain_singleton _⟩
    all_goals
      try simp (disch := decide) only [u32MagicAt, cbHeapAt, cbFreeAt, offFreeHeadAt, offFreeTailAt,
        coreNextAt, corePrevAt, offNextAt, offPrevAt, Words.put_self, Words.put_ne, frees, sum]
    · exact small
    · omega
    · omega
    · show 32 + 16 + (cbHeap - 48) = cbHeap
      omega
    · rfl
    · intro b member
      rw [mem_singleton.mp member]
      simp (disch := decide) only [offSelfAt, fFlagsAt, Words.put_self, Words.put_ne, true_and]
      rfl
    · rfl
    · rfl
    · rfl
    · intro b member _
      rw [mem_singleton.mp member]
      simp (disch := decide) only [cbAt, Words.put_self]

/-- The invariant of a run from a heap of `cbHeap` bytes. -/
def HeapMachine.Sound (m : HeapMachine) (cbHeap : Nat) : Prop :=
  (∃ blocks, m.Ok blocks) ∧ m.heap.mem cbHeapAt = cbHeap

theorem run_invariant {m m' : HeapMachine} {labels : List HeapLabel} {cbHeap : Nat}
    (sound : m.Sound cbHeap) (run : Run (Guarded Unspoilt HeapStep) m labels m') :
    m'.Sound cbHeap := by
  refine run.invariant (fun m => m.Sound cbHeap) (fun {m _ _} before step => ?_) sound
  obtain ⟨⟨blocks, ok⟩, size⟩ := before
  obtain ⟨blocks', ok', same⟩ := step_sound ok step.1 step.2
  exact ⟨⟨blocks', ok'⟩, same.trans size⟩

/-- Blocks that are held do not overlap. -/
theorem HeapMachine.Ok.disjoint {m : HeapMachine} {blocks : List HeapBlock} (ok : m.Ok blocks)
    {e e' : LiveBlock} (member : e ∈ m.live) (member' : e' ∈ m.live) (other : e ≠ e') :
    e.pv + e.cb ≤ e'.pv ∨ e'.pv + e'.cb ≤ e.pv := by
  obtain ⟨b, inUse, at', room, -⟩ := ok.used e member
  obtain ⟨b', inUse', at'', room', -⟩ := ok.used e' member'
  rcases before_or_before ok.heap.lists.tiles.pairwise (mem_usedBlocks.mp inUse).1
    (mem_usedBlocks.mp inUse').1 with rfl | before | behind
  · have same : e.pv = e'.pv := by rw [at', at'']
    exact absurd (inj_on_of_nodup_map ok.nodup member member' same) other
  · have := before.1
    omega
  · have := behind.1
    omega

/-- A heap in which nothing is held is one free block. -/
theorem HeapMachine.Ok.initial {m : HeapMachine} {blocks : List HeapBlock} (ok : m.Ok blocks)
    (none : m.live = []) (large : 48 < m.heap.mem cbHeapAt) :
    blocks = [⟨32, m.heap.mem cbHeapAt - 48, true⟩] := by
  have free : ∀ b ∈ blocks, b.free = true := by
    intro b member
    by_contra used
    have holds := ok.held b (mem_usedBlocks.mpr ⟨member, by simpa using used⟩)
    rw [HeapMachine.Holds, none] at holds
    cases holds
  have tiles := ok.heap.lists.tiles
  have apart := ok.heap.apart
  match blocks with
  | [] =>
    have finish : 32 = m.heap.mem cbHeapAt := tiles
    omega
  | [b] =>
    obtain ⟨start, -, -, finish⟩ := tiles
    have finish : b.off + 16 + b.cb = m.heap.mem cbHeapAt := finish
    have isFree := free b (mem_singleton_self b)
    have size : b.cb = m.heap.mem cbHeapAt - 48 := by omega
    rw [← size, ← start, ← isFree]
  | b :: c :: blocks =>
    rw [isChain_cons] at apart
    exact absurd ⟨free b (by simp), free c (by simp)⟩ (apart.1 c rfl)

/-- A call a caller may make. -/
def HeapMachine.MayCall (m : HeapMachine) : HeapLabel → Prop
  | .alloc .. => True
  | .free pv => m.Holds pv
  | .write .. => False

/-- In every unspoilt run, from a heap that is set up: the blocks tile the heap and both
lists are as they should be, what is held is the blocks in use, aligned and large enough,
and does not overlap; freeing everything gives the one free block back; and the next call
returns, and leaves the bytes of all other blocks alone. -/
theorem run_sound {mem : Words} {pvMemory cbMemory : Nat} {heap : OffsetHeap} {m : HeapMachine}
    {labels : List HeapLabel} (init : rtHeapOffsetInit mem pvMemory cbMemory = some heap)
    (run : Run (Guarded Unspoilt HeapStep) ⟨heap, []⟩ labels m) :
    (∃ blocks, m.Ok blocks) ∧
      (∀ e ∈ m.live, ∀ e' ∈ m.live, e ≠ e' → e.pv + e.cb ≤ e'.pv ∨ e'.pv + e'.cb ≤ e.pv) ∧
      (m.live = [] → HeapOk m.heap.mem [⟨32, heap.mem cbHeapAt - 48, true⟩]) ∧
      ∀ label : HeapLabel, label.Valid → Unspoilt m label → m.MayCall label →
        ∃ m', m.step label = some m' ∧ BytesKept m m' := by
  obtain ⟨start, base⟩ := init_ok init
  have large : 48 < heap.mem cbHeapAt := by
    obtain ⟨-, size, -, finish⟩ := start.lists.tiles
    have finish : 32 + 16 + (heap.mem cbHeapAt - 48) = heap.mem cbHeapAt := finish
    dsimp only at size
    omega
  have first : (HeapMachine.mk heap []).Ok [⟨32, heap.mem cbHeapAt - 48, true⟩] := by
    refine ⟨start, base, nodup_nil, fun b inUse => ?_, fun e held => ?_⟩
    · obtain ⟨member, used⟩ := mem_usedBlocks.mp inUse
      rw [mem_singleton.mp member] at used
      cases used
    · cases held
  obtain ⟨⟨blocks, ok⟩, size⟩ := run_invariant ⟨⟨_, first⟩, rfl⟩ run
  refine ⟨⟨blocks, ok⟩, fun e member e' member' => ok.disjoint member member', fun none => ?_,
    fun label valid unspoilt may => ?_⟩
  · have single := ok.initial none (by rw [size]; exact large)
    rw [size] at single
    rw [← single]
    exact ok.heap
  · cases label with
    | alloc cb cbAlignment =>
      obtain ⟨m', -, step, -, kept, -⟩ := alloc_step ok valid unspoilt
      exact ⟨m', step, kept⟩
    | free pv =>
      obtain ⟨m', -, step, -, kept, -⟩ := free_step ok may
      exact ⟨m', step, kept⟩
    | write pv x v => exact absurd may id

/-- Words of a heap of 4096 bytes with nothing in use. -/
structure FreshWords (mem : Words) : Prop where
  magic : mem 0 = heapMagic
  cbHeap : mem 4 = 4096
  cbFree : mem 8 = 4048
  head : mem 12 = 32
  tail : mem 16 = 32
  coreNext : mem 32 = 0
  corePrev : mem 36 = 0
  offSelf : mem 40 = 32
  fFlags : mem 44 = flagsMagic ||| 1
  offNext : mem 48 = 0
  offPrev : mem 52 = 0
  cb : mem 56 = 4048

theorem first_split (fresh : FreshWords mem) :
    splitAligned mem 32 240 =
      (mem.put (240 + 4) 32
        |>.put 240 0
        |>.put (240 + 8) 240
        |>.put (240 + 12) (flagsMagic ||| 1)
        |>.put (240 + 20) 32
        |>.put (240 + 16) 0
        |>.put (240 + 24) 3840
        |>.put 32 240
        |>.put (32 + 16) 240
        |>.put (32 + 24) 192
        |>.put 16 240
        |>.put 8 4032) := by
  rw [splitAligned]
  have coreNext := fresh.coreNext
  have offSelf := fresh.offSelf
  have offNext := fresh.offNext
  have cbHeap := fresh.cbHeap
  have cbFree := fresh.cbFree
  have second : sub32 (sub32 4096 240) 16 = 3840 := rfl
  have first : sub32 (sub32 240 32) 16 = 192 := rfl
  have rest : sub32 4048 16 = 4032 := rfl
  simp (disch := decide) only [Words.store, Words.storeCase, storeIf_corePrev, coreNextAt, corePrevAt,
    offSelfAt, fFlagsAt, offNextAt, offPrevAt, cbAt, cbFreeAt, cbHeapAt, offFreeTailAt, Words.put_self,
    Words.put_ne, coreNext, offSelf, offNext, endOf, cbHeap, cbFree, Nat.reduceAdd, second, first, rest,
    ne_eq, not_true, if_false, Words.putIf]

/-- The words behind the first allocation that the second one reads. -/
structure SplitWords (mem : Words) : Prop where
  magic : mem 0 = heapMagic
  cbHeap : mem 4 = 4096
  cbFree : mem 8 = 3952
  head : mem 12 = 32
  coreNext : mem 32 = 240
  offSelf : mem 40 = 32
  offNext : mem 48 = 320
  cb : mem 56 = 192

theorem first_words (fresh : FreshWords mem) :
    SplitWords (takeBlock (splitAligned mem 32 240) 240 64) ∧
      takeBlock (splitAligned mem 32 240) 240 64 260 = 32 := by
  have whole : takeBlock (splitAligned mem 32 240) 240 64 =
      splitEnd (splitAligned mem 32 240) 240 64 := by
    rw [takeBlock, first_split fresh]
    simp (disch := decide) only [cbAt, Words.put_self, Words.put_ne]
    rfl
  have stored : splitEnd (splitAligned mem 32 240) 240 64 =
      ((splitAligned mem 32 240).put 328 320
        |>.put 320 0
        |>.put 324 240
        |>.put 332 (flagsMagic ||| 1)
        |>.put 336 0
        |>.put 16 320
        |>.put 340 32
        |>.put 48 320
        |>.put 344 3760
        |>.put 252 flagsMagic
        |>.put 240 320
        |>.put 8 192
        |>.put 8 3952) := by
    rw [first_split fresh, splitEnd]
    have cbHeap := fresh.cbHeap
    have back : backSlot 0 = 16 := rfl
    have forth : forthSlot 32 = 48 := rfl
    simp (disch := decide) only [Words.store, storeIf_corePrev, storeOr_back, storeOr_forth,
      coreNextAt, corePrevAt, offSelfAt, fFlagsAt, offNextAt, offPrevAt, cbAt, cbFreeAt, cbHeapAt,
      Words.put_self, back, forth, Words.put_ne, endOf, cbHeap, Nat.reduceAdd, sub32, add32, ne_eq,
      not_true, if_false, Words.putIf]
    rfl
  rw [whole, stored, first_split fresh]
  obtain ⟨magic, cbHeap, -, head, -, -, -, offSelf, -, -, -, -⟩ := fresh
  refine ⟨⟨?_, ?_, ?_, ?_, ?_, ?_, ?_, ?_⟩, ?_⟩
  all_goals
    simp (disch := decide) only [Words.put_self, Words.put_ne, magic, cbHeap, head, offSelf,
      Nat.reduceAdd]

theorem second_spoils (words : SplitWords mem) :
    takeBlock (splitAligned mem 32 112) 112 16 260 = 112 := by
  obtain ⟨magic, cbHeap, cbFree, head, coreNext, offSelf, offNext, cb⟩ := words
  have stored : splitAligned mem 32 112 =
      (mem.put 116 32
        |>.put 112 240
        |>.put 120 112
        |>.put 124 (flagsMagic ||| 1)
        |>.put 132 32
        |>.put 128 320
        |>.put 136 112
        |>.put 32 112
        |>.put 48 112
        |>.put 56 64
        |>.put 244 112
        |>.put 260 112
        |>.put 8 3936) := by
    have upper : sub32 (sub32 240 112) 16 = 112 := rfl
    have lower : sub32 (sub32 112 32) 16 = 64 := rfl
    have rest : sub32 3952 16 = 3936 := rfl
    rw [splitAligned]
    simp (disch := decide) only [Words.store, Words.storeCase, storeIf_corePrev, coreNextAt,
      corePrevAt, offSelfAt, fFlagsAt, offNextAt, offPrevAt, cbAt, cbFreeAt, Words.put_self,
      Words.put_ne, coreNext, offSelf, offNext, endOf, cbFree, Nat.reduceAdd, upper, lower, rest,
      Words.putIf, ne_eq, OfNat.ofNat_ne_zero, not_false_eq_true, if_true]
  have room : takeBlock (splitAligned mem 32 112) 112 16 =
      splitEnd (splitAligned mem 32 112) 112 16 := by
    rw [takeBlock, stored]
    simp (disch := decide) only [cbAt, Words.put_self, Words.put_ne]
    rfl
  rw [room, stored, splitEnd]
  simp (disch := decide) only [Words.store, storeIf_corePrev, storeOr_back, storeOr_forth,
    coreNextAt, corePrevAt, offSelfAt, fFlagsAt, offNextAt, offPrevAt, cbAt, cbFreeAt,
    Words.put_self, Words.put_ne, endOf, Nat.reduceAdd, Words.putIf]
  rfl

theorem init_fresh : ∃ heap, rtHeapOffsetInit (fun _ => 0) 65536 4096 = some heap ∧
    heap.pHeapInt = 65536 ∧ FreshWords heap.mem := by
  have valid : 4096 ≤ 4096 ∧ 4096 < 2 ^ 32 - 1 ∧ 4096 < (65536 + (4096 - 1)) % 2 ^ 64 := by decide
  rw [rtHeapOffsetInit, if_pos valid]
  refine ⟨_, rfl, rfl, ?_⟩
  constructor
  all_goals
    simp (disch := decide) only [Words.store, u32MagicAt, cbHeapAt, cbFreeAt, offFreeHeadAt,
      offFreeTailAt, coreNextAt, corePrevAt, offSelfAt, fFlagsAt, offNextAt, offPrevAt, cbAt,
      Words.put_self, Words.put_ne]
  all_goals decide

theorem first_alloc (base : heap.pHeapInt = 65536) (fresh : FreshWords heap.mem) :
    rtHeapOffsetAlloc heap 64 256 =
      some ({ heap with mem := takeBlock (splitAligned heap.mem 32 240) 240 64 }, some 256) := by
  obtain ⟨magic, cbHeap, -, head, -, -, -, -, -, -, -, cb⟩ := fresh
  have found : findFit heap 64 256 (4095 + 1) 32 = some (32, some 176) := by
    rw [findFit, cbAt, cb, base]
    rfl
  have size : adjustSize 64 = 64 := rfl
  have alignment : adjustAlignment 256 = 256 := rfl
  have isMagic : ¬ heap.mem u32MagicAt ≠ heapMagic := not_not.mpr magic
  rw [rtHeapOffsetAlloc, size, alignment, rtHeapOffsetAllocBlock, if_neg isMagic, cbHeapAt, cbHeap,
    offFreeHeadAt, head, found]
  rfl

theorem second_alloc (base : heap.pHeapInt = 65536) (words : SplitWords heap.mem) :
    rtHeapOffsetAlloc heap 16 64 =
      some ({ heap with mem := takeBlock (splitAligned heap.mem 32 112) 112 16 }, some 128) := by
  obtain ⟨magic, cbHeap, -, head, -, -, -, cb⟩ := words
  have found : findFit heap 16 64 (4095 + 1) 32 = some (32, some 48) := by
    rw [findFit, cbAt, cb, base]
    rfl
  have size : adjustSize 16 = 16 := rfl
  have alignment : adjustAlignment 64 = 64 := rfl
  have isMagic : ¬ heap.mem u32MagicAt ≠ heapMagic := not_not.mpr magic
  rw [rtHeapOffsetAlloc, size, alignment, rtHeapOffsetAllocBlock, if_neg isMagic, cbHeapAt, cbHeap,
    offFreeHeadAt, head, found]
  rfl

theorem step_alloc {m : HeapMachine} (valid : cbAlignment = 0 ∨ PowerOfTwo cbAlignment)
    (alloc : rtHeapOffsetAlloc m.heap cb cbAlignment = some (heap, some pv)) :
    HeapStep m (.alloc cb cbAlignment) ⟨heap, m.live ++ [⟨pv, cb, cbAlignment⟩]⟩ := by
  refine ⟨valid, ?_⟩
  rw [HeapMachine.step, alloc]
  rfl

/-- The second of two allocations stores into the user bytes of the first. -/
theorem spoils_neighbour : ∃ heap m m', rtHeapOffsetInit (fun _ => 0) 65536 4096 = some heap ∧
    Run HeapStep ⟨heap, []⟩ [.alloc 64 256] m ∧ HeapStep m (.alloc 16 64) m' ∧
    m.live = [⟨256, 64, 256⟩] ∧ m'.live = [⟨256, 64, 256⟩, ⟨128, 16, 64⟩] ∧
    m.heap.mem 260 = 32 ∧ m'.heap.mem 260 = 112 := by
  obtain ⟨⟨pHeapInt, mem⟩, init, base, fresh⟩ := init_fresh
  obtain ⟨words, before⟩ := first_words fresh
  have first := first_alloc base fresh
  dsimp only at first words before
  generalize takeBlock (splitAligned mem 32 240) 240 64 = mem₁ at first words before
  have second : rtHeapOffsetAlloc ⟨pHeapInt, mem₁⟩ 16 64 = _ := second_alloc base words
  have after := second_spoils words
  dsimp only at second
  generalize takeBlock (splitAligned mem₁ 32 112) 112 16 = mem₂ at second after
  have step : HeapStep ⟨⟨pHeapInt, mem⟩, []⟩ (.alloc 64 256) _ := step_alloc (.inr ⟨8, rfl⟩) first
  exact ⟨_, _, _, init, .next step (.done _), step_alloc (.inr ⟨6, rfl⟩) second, rfl, rfl, before,
    after⟩

theorem run_sound_fresh : ∃ heap m, rtHeapOffsetInit (fun _ => 0) 65536 4096 = some heap ∧
    Run HeapStep ⟨heap, []⟩ [.alloc 64 256] m ∧ (∃ blocks, m.Ok blocks) ∧
      (∀ e ∈ m.live, ∀ e' ∈ m.live, e ≠ e' → e.pv + e.cb ≤ e'.pv ∨ e'.pv + e'.cb ≤ e.pv) ∧
      (m.live = [] → HeapOk m.heap.mem [⟨32, heap.mem cbHeapAt - 48, true⟩]) ∧
      ∀ label : HeapLabel, label.Valid → Unspoilt m label → m.MayCall label →
        ∃ m', m.step label = some m' ∧ BytesKept m m' := by
  obtain ⟨heap, init, base, fresh⟩ := init_fresh
  have first : HeapStep ⟨heap, []⟩ (.alloc 64 256) _ :=
    step_alloc (.inr ⟨8, rfl⟩) (first_alloc base fresh)
  have unspoilt : Unspoilt ⟨heap, []⟩ (.alloc 64 256) := by
    refine ⟨by decide, fun fit found => .inr ?_⟩
    obtain ⟨magic, cbHeap, -, head, -, -, -, -, -, offNext, -, cb⟩ := fresh
    have fits : findFit heap 64 256 (4095 + 1) 32 = some (32, some 176) := by
      rw [findFit, cbAt, cb, base]
      rfl
    have size : adjustSize 64 = 64 := rfl
    have alignment : adjustAlignment 256 = 256 := rfl
    rw [size, alignment, cbHeapAt, cbHeap, offFreeHeadAt, head, fits] at found
    cases found
    exact offNext
  have run : Run (Guarded Unspoilt HeapStep) ⟨heap, []⟩ [.alloc 64 256] _ :=
    .next ⟨unspoilt, first⟩ (.done _)
  exact ⟨heap, _, init, run.mono And.right, run_sound init run⟩

/-! ### Sizes -/

/-- `RTHeapOffsetGetFreeSize` -/
def rtHeapOffsetGetFreeSize (heap : OffsetHeap) : Nat := heap.mem cbFreeAt

theorem Tiles.sizes {lo hi : Nat} {blocks : List HeapBlock} (tiles : Tiles lo blocks hi) :
    freeSize blocks + ((usedBlocks blocks).map HeapBlock.cb).sum + 16 * blocks.length + lo = hi := by
  induction blocks generalizing lo with
  | nil => simpa [Tiles, freeSize, freeBlocks, usedBlocks] using tiles
  | cons b blocks ih =>
    obtain ⟨start, -, -, rest⟩ := tiles
    have behind := ih rest
    rw [usedBlocks] at behind
    rw [freeSize_cons, usedBlocks, filter_cons, length_cons]
    cases b.free <;> simp <;> omega

/-- What is free, what is in use, the headers and the anchor are the whole heap. -/
def HeapMachine.AddsUp (m : HeapMachine) (cbHeap : Nat) : Prop :=
  ∃ blocks, m.Ok blocks ∧
    (∀ b ∈ usedBlocks blocks, rtHeapOffsetSize m.heap (b.off + 16) = b.cb) ∧
    rtHeapOffsetGetFreeSize m.heap + ((usedBlocks blocks).map HeapBlock.cb).sum +
      16 * blocks.length + 32 = cbHeap

end Runs

end VBox.Runtime
