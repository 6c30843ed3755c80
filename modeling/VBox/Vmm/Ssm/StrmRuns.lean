import VBox.Vmm.Ssm.StrmPhases

/-!
The steps of a stream, and its runs.
-/

namespace VBox.Vmm.Ssm

open VBox.Lib List Option
open Function (update)

namespace StrmMachine

variable {m m' : StrmMachine} {cBuffers id : Nat}

/-- How the callers use a stream: a reservation is of a quarter of a buffer at most and is
committed before the next call, and behind the end only the close comes. -/
def InOrder (m : StrmMachine) : StrmLabel → Prop
  | .call (.write _) => m.reserved = none ∧ m.ended = false
  | .call (.reserve cb) => m.reserved = none ∧ m.ended = false ∧ cb ≤ cbBuf / 4
  | .call (.commit bytes) => ∃ id off cb, m.reserved = some (id, off, cb) ∧ bytes.length ≤ cb
  | .call (.checkAndFlush _) => m.reserved = none
  | .call .setEnd => m.reserved = none ∧ m.ended = false
  | .call .close => m.reserved = none
  | _ => True

instance (m : StrmMachine) (label : StrmLabel) : Decidable (m.InOrder label) :=
  match label with
  | .call (.write _) => inferInstanceAs (Decidable (m.reserved = none ∧ m.ended = false))
  | .call (.reserve cb) =>
      inferInstanceAs (Decidable (m.reserved = none ∧ m.ended = false ∧ cb ≤ cbBuf / 4))
  | .call (.commit bytes) =>
      decidable_of_iff ((m.reserved.any fun r => bytes.length ≤ r.2.2) = true) (by
        cases eq : m.reserved <;> simp [InOrder, eq, Prod.ext_iff])
  | .call (.checkAndFlush _) => inferInstanceAs (Decidable (m.reserved = none))
  | .call .setEnd => inferInstanceAs (Decidable (m.reserved = none ∧ m.ended = false))
  | .call .close => inferInstanceAs (Decidable (m.reserved = none))
  | .call .curCRC | .producer | .writer => inferInstanceAs (Decidable True)

/-! ### Taking the queue over -/

/-- The queue is taken over by a writer that has nothing. -/
theorem queue_takeOver (idle : m.writer.held = []) : m.takeOver.queue = m.queue := by
  have none : m.writer.toWrite = [] := eq_nil_of_sublist_nil (idle ▸ m.writer.toWrite_sublist)
  rw [StrmMachine.queue, StrmMachine.queue, none]
  exact append_nil _

theorem Placed.takeOver (placed : m.Placed cBuffers) (idle : m.writer.held = []) :
    m.takeOver.Placed cBuffers := by
  have held : m.takeOver.writer.held = m.strm.pHead.reverse := rfl
  refine Perm.trans ?_ placed
  rw [perm_iff_count]
  intro a
  rw [places, places, held, idle]
  simp only [StrmMachine.takeOver, count_append, count_nil, count_reverse]
  omega

theorem Quiet.takeOver (quiet : m.Quiet) (idle : m.writer.held = []) : m.takeOver.Quiet := by
  refine ⟨?_, ?_, ⟨WriterPc.noConfusion, WriterPc.noConfusion⟩, quiet.open'⟩
  · intro i mem
    rw [queue_takeOver idle] at mem
    exact quiet.queue i mem
  · intro i pHead eq
    cases eq

theorem Shape.takeOver (shape : m.Shape) : m.takeOver.Shape := by
  unfold Shape at shape ⊢
  have same : m.takeOver.producer = m.producer := rfl
  rw [same]
  cases pc : m.producer with
  | writeBuffers next =>
    rw [pc] at shape
    exact ⟨shape.1, rfl, shape.2.2⟩
  | _ =>
    rw [pc] at shape
    exact shape

/-! ### Queueing a buffer -/

/-- The current buffer is put on the queue. -/
def flushTo (m : StrmMachine) (id : Nat) (pc : ProducerPc) : StrmMachine :=
  m.setStrm (m.strm.flushCurBuf id) pc

theorem queue_flushTo (m : StrmMachine) (id : Nat) (pc : ProducerPc) :
    (m.flushTo id pc).queue = m.queue ++ [id] := by
  simp [flushTo, setStrm, StrmMachine.queue, SsmStrm.flushCurBuf, SsmStrm.setBuf]

theorem flagged_flushTo (m : StrmMachine) (id : Nat) (pc : ProducerPc) (i : Nat) :
    (m.flushTo id pc).flagged i ↔ m.flagged i := by
  by_cases eq : i = id
  · subst eq
    simp [flagged, flushTo, setStrm, SsmStrm.flushCurBuf, SsmStrm.setBuf]
  · simp [flagged, flushTo, setStrm, SsmStrm.flushCurBuf, SsmStrm.setBuf, eq]

theorem Quiet.flushTo (quiet : m.Quiet) (unflagged : ¬ m.flagged id) (pc : ProducerPc) :
    (m.flushTo id pc).Quiet := by
  refine ⟨?_, ?_, quiet.running, quiet.open'⟩
  · intro i mem
    rw [queue_flushTo] at mem
    rw [flagged_flushTo]
    rcases mem_append.1 mem with mem | mem
    · exact quiet.queue i mem
    · rw [mem_singleton.1 mem]
      exact unflagged
  · intro i pHead eq
    rw [flagged_flushTo]
    exact quiet.freeing i pHead eq

theorem Open.flushTo (open' : m.Open) (cur : m.strm.pCur = some id) {pc : ProducerPc}
    (openPc : OpenPc pc) : (m.flushTo id pc).Open := by
  refine ⟨open'.toQuiet.flushTo (open'.current id cur) pc, ?_, open'.ended, openPc⟩
  intro i eq
  cases eq

theorem Sealing.flushTo (sealing : m.Sealing) : (m.flushTo id .ready).Over := by
  have quiet := sealing.toQuiet
  refine ⟨rfl, sealing.ended, ?_, ?_, ?_, ?_, ?_, ?_⟩
  · intro i mem flag
    rw [queue_flushTo] at mem ⊢
    rw [flagged_flushTo] at flag
    rcases mem_append.1 mem with mem | mem
    · exact absurd flag (quiet.queue i mem)
    · rw [mem_singleton.1 mem]
      exact getLast?_concat
  · intro i pHead eq flag
    rw [flagged_flushTo] at flag
    exact absurd flag (quiet.freeing i pHead eq)
  · intro eq
    exact absurd eq quiet.running.1
  · intro eq
    exact absurd eq quiet.running.2
  · intro terminating
    cases quiet.open'.symm.trans terminating
  · intro eq
    cases eq

theorem Placed.flushTo (placed : m.Placed cBuffers) (cur : m.strm.pCur = some id)
    (pc : ProducerPc) : (m.flushTo id pc).Placed cBuffers := by
  refine Perm.trans ?_ placed
  rw [perm_iff_count]
  intro a
  rw [places, places, cur]
  simp only [StrmMachine.flushTo, setStrm, SsmStrm.flushCurBuf, SsmStrm.setBuf, count_append,
    count_cons, count_nil, toList_some, toList_none]
  omega

/-! ### Calls -/

namespace Sound

variable (sound : m.Sound cBuffers)

include sound

theorem bytes_of_ready (ready : m.producer = .ready) : m.flushed ++ m.current = m.asked := by
  have bytes := sound.content.bytes
  rw [ready] at bytes
  simpa [ProducerPc.todo] using bytes

theorem held_of_ready (ready : m.producer = .ready) (alone : m.strm.hIoThread = false) :
    m.writer.held = [] :=
  sound.resting alone (by rw [ready]; simp)

/-- The producer begins something that needs a list operation, and does nothing yet. -/
theorem begin_ (pc : ProducerPc) (ready : m.producer = .ready) (reserved : m.reserved = none)
    {asked : List UInt8} (todo : m.asked ++ pc.todo = asked)
    (shape : { m with producer := pc, asked := asked }.Shape) (pcOpen : OpenPc pc)
    (open' : m.Open) :
    { m with producer := pc, asked := asked }.Sound cBuffers where
  placed := sound.placed
  content := sound.content.congr rfl rfl rfl rfl rfl rfl rfl rfl
    (by rw [sound.bytes_of_ready ready, todo])
  shape := shape
  reserved id off cb some := by
    rw [reserved] at some
    cases some
  resting alone _ := sound.held_of_ready ready alone
  phase := .inl ⟨open'.toQuiet.congr (.of_bufs rfl rfl rfl rfl), open'.current, open'.ended, pcOpen⟩

/-- Bytes are copied to the current buffer. -/
theorem append (pc : ProducerPc) (rest : List UInt8) (cur : m.strm.pCur = some id)
    {bytes asked : List UInt8} (room : m.strm.off + bytes.length ≤ cbBuf) (reserved : m.reserved = none)
    (whole : m.flushed ++ m.current ++ (bytes ++ pc.todo) = asked)
    (pcNext : pc = .ready ∨ pc = .flush (.write rest)) (open' : m.Open)
    (resting : m.strm.hIoThread = false → m.writer.held = []) :
    { m with strm := m.strm.append id bytes, producer := pc, asked := asked }.Sound cBuffers := by
  have fresh := sound.placed.current_notMem cur
  refine ⟨sound.placed, sound.content.append cur (fun mem => fresh (m.queue_subset mem)) room rfl rfl
    rfl whole, ?_, ?_, fun alone _ => resting alone, .inl ⟨?_, ?_, open'.ended, ?_⟩⟩
  · rcases pcNext with rfl | rfl
    · trivial
    · refine ⟨?_, ?_⟩
      · intro none
        cases cur.symm.trans none
      · intro cb eq
        cases eq
  · intro id off cb some
    rw [reserved] at some
    cases some
  · exact open'.toQuiet.congr (.of_update rfl rfl rfl rfl fresh)
  · intro i current
    have eq : i = id := some.inj (current.symm.trans cur)
    subst eq
    have unflagged := open'.current i cur
    simpa [flagged, SsmStrm.append, SsmStrm.setBuf] using unflagged
  · rcases pcNext with rfl | rfl
    · trivial
    · exact Then.noConfusion

theorem call_write (ready : m.producer = .ready) (reserved : m.reserved = none)
    (ended : m.ended = false) {bytes : List UInt8} (step : m.call (.write bytes) = some m') :
    m'.Sound cBuffers := by
  have open' := sound.phase.open_of_ready ready ended
  have whole := sound.bytes_of_ready ready
  unfold call at step
  simp only at step
  split at step
  · rename_i none
    cases step
    subst none
    rw [append_nil]
    exact sound
  · split at step
    · rename_i cur
      cases step
      refine sound.begin_ (.getFree (.write bytes)) ready reserved rfl ⟨cur, ?_⟩ ⟨?_, ?_⟩ open'
      · intro cb eq
        cases eq
      · exact Then.noConfusion
      · exact Then.noConfusion
    · rename_i id cur
      cases step
      have fits := sound.content.fits
      refine sound.append _ (bytes.drop (cbBuf - m.strm.off)) cur ?_ reserved ?_ ?_ open'
        (sound.held_of_ready ready)
      · rw [length_take]
        omega
      · rw [whole]
        split
        · rename_i le
          rw [take_of_length_le le]
          simp [ProducerPc.todo]
        · simp [ProducerPc.todo, Then.todo]
      · split
        · exact .inl rfl
        · exact .inr rfl

theorem call_reserve (ready : m.producer = .ready) (reserved : m.reserved = none)
    (ended : m.ended = false) {cb : Nat} (small : cb ≤ cbBuf / 4)
    (step : m.call (.reserve cb) = some m') : m'.Sound cBuffers := by
  have open' := sound.phase.open_of_ready ready ended
  have fits : cb ≤ cbBuf := small.trans (Nat.div_le_self _ _)
  unfold call at step
  simp only at step
  split at step
  · rename_i cur
    cases step
    refine sound.begin_ (.getFree (.reserve cb)) ready reserved (append_nil _) ⟨cur, ?_⟩
      ⟨?_, ?_⟩ open'
    · intro cb' eq
      cases eq
      exact fits
    · exact Then.noConfusion
    · exact Then.noConfusion
  · rename_i id cur
    split at step
    · rename_i room
      cases step
      refine ⟨sound.placed, ⟨sound.content.bytes, sound.content.row, sound.content.crc,
        sound.content.fits, sound.content.behind, sound.content.empty⟩, sound.shape, ?_, sound.resting,
        .inl ⟨open'.toQuiet.congr (.of_bufs rfl rfl rfl rfl), open'.current, open'.ended, open'.pc⟩⟩
      intro id' off cb' some
      cases some
      have within := sound.content.fits
      exact ⟨ready, cur, rfl, by omega, ended⟩
    · cases step
      refine sound.begin_ (.flush (.reserve cb)) ready reserved (append_nil _) ⟨?_, ?_⟩ ?_ open'
      · intro none
        cases cur.symm.trans none
      · intro cb' eq
        cases eq
        exact fits
      · exact Then.noConfusion

theorem call_commit {bytes : List UInt8} {off cb : Nat} (space : m.reserved = some (id, off, cb))
    (le : bytes.length ≤ cb) (step : m.call (.commit bytes) = some m') : m'.Sound cBuffers := by
  obtain ⟨ready, cur, rfl, room, ended⟩ := sound.reserved id off cb space
  have open' := sound.phase.open_of_ready ready ended
  have whole := sound.bytes_of_ready ready
  unfold call at step
  rw [space] at step
  cases step
  have unreserved : { m with reserved := none }.Sound cBuffers := by
    refine ⟨sound.placed, ⟨sound.content.bytes, sound.content.row, sound.content.crc,
      sound.content.fits, sound.content.behind, sound.content.empty⟩, sound.shape, ?_, sound.resting,
      .inl ⟨open'.toQuiet.congr (.of_bufs rfl rfl rfl rfl), open'.current, open'.ended, open'.pc⟩⟩
    intro _ _ _ eq
    cases eq
  refine unreserved.append m.producer [] cur (by simp only; omega) rfl ?_
    (.inl ready) ⟨open'.toQuiet.congr (.of_bufs rfl rfl rfl rfl), open'.current, open'.ended, open'.pc⟩
    (sound.held_of_ready ready)
  rw [ready]
  simp only [ProducerPc.todo, append_nil]
  exact congrArg (· ++ bytes) whole

theorem call_checkAndFlush (ready : m.producer = .ready) (reserved : m.reserved = none)
    {fOld : Bool} (step : m.call (.checkAndFlush fOld) = some m') : m'.Sound cBuffers := by
  unfold call at step
  simp only at step
  split at step
  · rename_i id cur
    split at step
    · cases step
      have ended : m.ended = false := by
        cases ended : m.ended with
        | false => rfl
        | true => cases cur.symm.trans (sound.phase.over_of_ready ready ended).empty
      have open' := sound.phase.open_of_ready ready ended
      refine sound.begin_ (.flush .ret) ready reserved (append_nil _) ⟨?_, ?_⟩ ?_ open'
      · intro none
        cases cur.symm.trans none
      · intro cb eq
        cases eq
      · exact Then.noConfusion
    · cases step
      exact sound
  · cases step
    exact sound

theorem call_curCRC (ready : m.producer = .ready) (step : m.call .curCRC = some m') :
    m'.Sound cBuffers := by
  cases step
  have content := sound.content
  cases cur : m.strm.pCur with
  | none =>
    have same : m.strm.curCRC.1 = m.strm := by rw [SsmStrm.curCRC, cur]
    have eq : m.setStrm m.strm .ready = m := by rw [setStrm, ← ready]
    rw [same, eq]
    exact sound
  | some id =>
    by_cases lags : m.strm.offStreamCRC < m.strm.off
    · have lagging : m.strm.curCRC.1 = { m.strm with
          u32StreamCRC := crc32Process m.strm.u32StreamCRC (bytesAt (m.strm.bufs id).abData
            m.strm.offStreamCRC (m.strm.off - m.strm.offStreamCRC))
          offStreamCRC := m.strm.off } := by
        unfold SsmStrm.curCRC
        split
        · rename_i none
          cases cur.symm.trans none
        · rename_i id' cur'
          cases cur.symm.trans cur'
          rw [if_pos lags]
      rw [lagging]
      have current : m.current = bytesAt (m.strm.bufs id).abData 0 m.strm.off := by
        unfold StrmMachine.current
        rw [cur]
      have caught : crc32Process m.strm.u32StreamCRC (bytesAt (m.strm.bufs id).abData
          m.strm.offStreamCRC (m.strm.off - m.strm.offStreamCRC)) =
          crc32Process crc32Start (m.flushed ++ m.current.take m.strm.off) := by
        rw [content.crc, take_of_length_le (le_of_eq (Content.current_length cur)), current,
          bytesAt_split _ content.behind, take_left' (length_bytesAt _ _ _),
          ← crc32Process_append, append_assoc]
      refine ⟨sound.placed, ⟨?_, content.row, caught, content.fits, le_refl _, content.empty⟩,
        trivial, ?_, fun alone _ => sound.held_of_ready ready alone, ?_⟩
      · exact (append_nil _).trans (sound.bytes_of_ready ready)
      · intro id' off cb space
        obtain ⟨-, rest⟩ := sound.reserved id' off cb space
        exact ⟨rfl, rest⟩
      · have ended : m.ended = false := by
          cases ended : m.ended with
          | false => rfl
          | true => cases cur.symm.trans (sound.phase.over_of_ready ready ended).empty
        have open' := sound.phase.open_of_ready ready ended
        exact .inl ⟨open'.toQuiet.congr (.of_bufs rfl rfl rfl rfl), open'.current, open'.ended,
          trivial⟩
    · have same : m.strm.curCRC.1 = m.strm := by
        rw [SsmStrm.curCRC, cur]
        exact congrArg Prod.fst (if_neg lags)
      have eq : m.setStrm m.strm .ready = m := by rw [setStrm, ← ready]
      rw [same, eq]
      exact sound

/-- The end is flagged in the current buffer. -/
theorem flagCurrent (cur : m.strm.pCur = some id) (quiet : m.Quiet) (reserved : m.reserved = none)
    (todo : m.producer.todo = []) (resting : m.strm.hIoThread = false → m.writer.held = []) :
    ({ m with ended := true }.useFresh id .setEnd).Sound cBuffers := by
  have fresh := sound.placed.current_notMem cur
  have same : SameQueue m ({ m with ended := true }.useFresh id .setEnd) :=
    .of_update rfl rfl rfl fun mem => fresh (m.queue_subset mem)
  have current : ({ m with ended := true }.useFresh id .setEnd).current = m.current := by
    have cur' : ({ m with ended := true }.useFresh id .setEnd).strm.pCur = some id := cur
    unfold StrmMachine.current
    rw [cur', cur]
    simp [useFresh, setStrm, SsmStrm.setBuf]
  have whole := sound.content.bytes
  rw [todo] at whole
  refine ⟨sound.placed, sound.content.congr same.flushed same.blocks current rfl rfl rfl rfl rfl whole,
    ⟨?_, ?_⟩, ?_, fun alone _ => resting alone,
    .inr (.inl ⟨quiet.congr (.of_update rfl rfl rfl rfl fresh), rfl, rfl⟩)⟩
  · intro none
    cases cur.symm.trans none
  · intro cb eq
    cases eq
  · intro _ _ _ eq
    cases reserved.symm.trans eq

theorem call_setEnd (ready : m.producer = .ready) (reserved : m.reserved = none)
    (ended : m.ended = false) (step : m.call .setEnd = some m') : m'.Sound cBuffers := by
  have open' := sound.phase.open_of_ready ready ended
  unfold call at step
  simp only at step
  split at step
  · rename_i cur
    cases step
    refine ⟨sound.placed, sound.content.congr rfl rfl rfl rfl rfl rfl rfl rfl ?_, ⟨cur, ?_⟩, ?_,
      fun alone _ => sound.held_of_ready ready alone,
      .inr (.inl ⟨open'.toQuiet.congr (.of_bufs rfl rfl rfl rfl), rfl, rfl⟩)⟩
    · have whole := sound.bytes_of_ready ready
      simpa [ProducerPc.todo, Then.todo, setStrm] using whole
    · intro cb eq
      cases eq
    · intro _ _ _ eq
      cases reserved.symm.trans eq
  · rename_i id cur
    cases step
    exact sound.flagCurrent cur open'.toQuiet reserved (by rw [ready]; rfl) (sound.held_of_ready ready)

/-! ### Closing -/

/-- Nothing is current any more, and the queue is written out. -/
theorem closing (empty : m.strm.pCur = none) (todo : m.producer.todo = [])
    (reserved : m.reserved = none) (resting : m.strm.hIoThread = false → m.writer.held = [])
    (unended : m.strm.fTerminating = false)
    (last : ∀ id ∈ m.queue, m.flagged id → m.queue.getLast? = some id)
    (freeing : ∀ id pHead, m.writer = .freeing id pHead → m.flagged id → m.queue = [])
    (done : m.writer = .done → m.queue = []) : m.closing.Sound cBuffers := by
  have whole := sound.content.bytes
  rw [todo] at whole
  unfold StrmMachine.closing
  split
  · rename_i threaded
    refine ⟨sound.placed, sound.content.congr rfl rfl rfl rfl rfl rfl rfl rfl whole,
      ⟨empty, threaded⟩, ?_, ?_, .inr (.inr ⟨empty, trivial, last, freeing, done, ?_, ?_, ?_⟩)⟩
    · intro _ _ _ eq
      cases reserved.symm.trans eq
    · intro alone
      cases threaded.symm.trans alone
    · intro _
      rfl
    · intro _
      exact .inl rfl
    · intro eq
      cases eq
  · rename_i alone
    have alone : m.strm.hIoThread = false := by simpa using alone
    have idle := resting alone
    have queue := queue_takeOver idle
    have same : SameQueue m { m.takeOver with producer := .writeBuffers .close } :=
      .of_bufs rfl queue rfl
    refine ⟨sound.placed.takeOver idle, sound.content.congr same.flushed same.blocks rfl rfl rfl rfl rfl
      rfl whole, ⟨empty, rfl, alone, ?_⟩, ?_, ?_, .inr (.inr ⟨empty, rfl, ?_, ?_, ?_, ?_, ?_, ?_⟩)⟩
    · intro cb eq
      cases eq
    · intro _ _ _ eq
      cases reserved.symm.trans eq
    · intro _ away
      exact absurd rfl (away .close)
    · intro i mem flag
      rw [same.queue] at mem ⊢
      exact last i mem flag
    · intro i pHead eq
      cases eq
    · intro eq
      cases eq
    · intro eq
      cases eq
    · intro terminating
      cases unended.symm.trans terminating
    · intro eq
      cases eq

theorem call_close (ready : m.producer = .ready) (reserved : m.reserved = none)
    (step : m.call .close = some m') : m'.Sound cBuffers := by
  unfold call at step
  simp only at step
  split at step
  · rename_i empty
    cases step
    cases ended : m.ended with
    | false =>
      have quiet := (sound.phase.open_of_ready ready ended).toQuiet
      exact sound.closing empty (by rw [ready]; rfl) reserved (sound.held_of_ready ready) quiet.open'
        (fun i mem flag => absurd flag (quiet.queue i mem))
        (fun i pHead eq flag => absurd flag (quiet.freeing i pHead eq))
        (fun eq => absurd eq quiet.running.1)
    | true =>
      have ending := sound.phase.over_of_ready ready ended
      have unended : m.strm.fTerminating = false := by
        cases terminating : m.strm.fTerminating with
        | false => rfl
        | true =>
          rcases ending.waits terminating with eq | eq <;> cases ready.symm.trans eq
      exact sound.closing empty (by rw [ready]; rfl) reserved (sound.held_of_ready ready) unended
        ending.last ending.freeing ending.done
  · rename_i id cur
    cases step
    have ended : m.ended = false := by
      cases ended : m.ended with
      | false => rfl
      | true => cases cur.symm.trans (sound.phase.over_of_ready ready ended).empty
    refine sound.begin_ (.flush .close) ready reserved (append_nil _) ⟨?_, ?_⟩ ?_
      (sound.phase.open_of_ready ready ended)
    · intro none
      cases cur.symm.trans none
    · intro cb eq
      cases eq
    · exact Then.noConfusion

/-- A call keeps the invariant. -/
theorem call {c : StrmCall} (ready : m.producer = .ready) (inOrder : m.InOrder (.call c))
    (step : m.call c = some m') : m'.Sound cBuffers := by
  cases c with
  | write bytes => exact sound.call_write ready inOrder.1 inOrder.2 step
  | reserve cb => exact sound.call_reserve ready inOrder.1 inOrder.2.1 inOrder.2.2 step
  | commit bytes =>
    obtain ⟨id, off, cb, space, le⟩ := inOrder
    exact sound.call_commit space le step
  | checkAndFlush fOld => exact sound.call_checkAndFlush ready inOrder step
  | setEnd => exact sound.call_setEnd ready inOrder.1 inOrder.2 step
  | close => exact sound.call_close ready inOrder step
  | curCRC => exact sound.call_curCRC ready step

/-! ### Steps of the producer -/

theorem reserved_none (busy : m.producer ≠ .ready) : m.reserved = none := by
  cases space : m.reserved with
  | none => rfl
  | some space' =>
    obtain ⟨id, off, cb⟩ := space'
    exact absurd (sound.reserved id off cb space).1 busy

/-- The phase of the stream and the place of the producer go together. -/
theorem phase_at {pc : ProducerPc} (here : m.producer = pc) :
    (m.Open ∧ OpenPc pc) ∨ (m.Sealing ∧ SealingPc pc) ∨ (m.Over ∧ OverPc m.ended pc) := by
  subst here
  rcases sound.phase with phase | phase | phase
  · exact .inl ⟨phase, phase.pc⟩
  · exact .inr (.inl ⟨phase, phase.pc⟩)
  · exact .inr (.inr ⟨phase, phase.pc⟩)

theorem flushTo (cur : m.strm.pCur = some id) (pc : ProducerPc)
    (todo : pc.todo = m.producer.todo) (reserved : m.reserved = none)
    (shape : (m.flushTo id pc).Shape) (resting : m.strm.hIoThread = false → m.writer.held = [])
    (phase : (m.flushTo id pc).Phase) : (m.flushTo id pc).Sound cBuffers := by
  have fresh := sound.placed.current_notMem cur
  refine ⟨sound.placed.flushTo cur pc, sound.content.flush cur (fun mem => fresh (m.queue_subset mem))
    rfl rfl rfl rfl todo, shape, ?_, fun alone _ => resting alone, phase⟩
  intro _ _ _ eq
  cases reserved.symm.trans eq

/-- The current buffer is queued, and the producer goes on. -/
theorem produce_flush {next : Then} (pc : m.producer = .flush next) (cur : m.strm.pCur = some id)
    (step : m.produce = some m') : m'.Sound cBuffers := by
  have busy : m.producer ≠ .ready := by
    rw [pc]
    exact ProducerPc.noConfusion
  have reserved := sound.reserved_none busy
  have resting : m.strm.hIoThread = false → m.writer.held = [] := by
    intro alone
    apply sound.resting alone
    rw [pc]
    simp
  have shape := sound.shape
  rw [Shape, pc] at shape
  have phase : (m.Open ∧ next ≠ .setEnd) ∨ (m.Sealing ∧ next = .ret) := by
    rcases sound.phase_at pc with phase | phase | ⟨-, overPc⟩
    · exact .inl phase
    · exact .inr phase
    · cases overPc
  have onward : m.Open → next ≠ .setEnd → next ≠ .close →
      (m.flushTo id (.getFree next)).Sound cBuffers := by
    intro open' notEnd notClose
    exact sound.flushTo cur _ (by rw [pc]; rfl) reserved ⟨rfl, shape.2⟩ resting
      (.inl (open'.flushTo cur ⟨notEnd, notClose⟩))
  unfold produce at step
  rw [pc, cur] at step
  rcases phase with ⟨open', notEnd⟩ | ⟨sealing, rfl⟩
  · have rested : next.todo = [] → (m.flushTo id .ready).Sound cBuffers := by
      intro todo
      exact sound.flushTo cur _ (by rw [pc]; exact todo.symm) reserved trivial resting
        (.inl (open'.flushTo cur trivial))
    cases next with
    | ret =>
      cases step
      exact rested rfl
    | close =>
      cases step
      have quiet := open'.toQuiet.flushTo (open'.current id cur) .ready
      exact (rested rfl).closing rfl rfl reserved resting quiet.open'
        (fun i mem flag => absurd flag (quiet.queue i mem))
        (fun i pHead eq flag => absurd flag (quiet.freeing i pHead eq))
        (fun eq => absurd eq quiet.running.1)
    | setEnd => exact absurd rfl notEnd
    | write bytes =>
      cases step
      exact onward open' notEnd Then.noConfusion
    | reserve cb =>
      cases step
      exact onward open' notEnd Then.noConfusion
  · cases step
    exact sound.flushTo cur _ (by rw [pc]; rfl) reserved trivial resting (.inr (.inr sealing.flushTo))

/-- A free buffer becomes the current one. -/
theorem getFreeTo {pFree : List Nat} (free : m.strm.pFree = id :: pFree)
    (cur : m.strm.pCur = none) (pc : ProducerPc) (todo : pc.todo = m.producer.todo)
    (reserved : m.reserved = none) (shape : ∀ strm, strm.pCur = some id →
      (m.setStrm strm pc).Shape) (resting : m.strm.hIoThread = false → m.writer.held = [])
    (phase : m.Quiet → (m.Open ∧ OpenPc pc) ∨ (m.Sealing ∧ SealingPc pc)) (quiet : m.Quiet) :
    (m.setStrm (m.strm.getFreeBuf id pFree) pc).Sound cBuffers := by
  have fresh := sound.placed.free_notMem (by rw [free]; exact mem_cons_self)
  have whole := sound.content.bytes
  have current : m.current = [] := by
    unfold StrmMachine.current
    rw [cur]
  rw [current, append_nil, ← todo] at whole
  have quiet' : (m.setStrm (m.strm.getFreeBuf id pFree) pc).Quiet :=
    quiet.congr (.of_update rfl rfl rfl rfl fresh)
  refine ⟨?_, sound.content.getFree cur (fun mem => fresh (m.queue_subset mem)) rfl rfl rfl whole,
    shape _ rfl, ?_, fun alone _ => resting alone, ?_⟩
  · refine Perm.trans ?_ sound.placed
    rw [perm_iff_count]
    intro a
    rw [places, places, cur, free]
    simp only [setStrm, SsmStrm.getFreeBuf, SsmStrm.setBuf, count_append, count_cons,
      count_nil, toList_some, toList_none]
    omega
  · intro _ _ _ eq
    cases reserved.symm.trans eq
  · rcases phase quiet with ⟨open', openPc⟩ | ⟨sealing, sealingPc⟩
    · refine .inl ⟨quiet', ?_, open'.ended, openPc⟩
      intro i eq
      cases eq
      simp [flagged, setStrm, SsmStrm.getFreeBuf, SsmStrm.setBuf]
    · exact .inr (.inl ⟨quiet', sealing.ended, sealingPc⟩)

/-- The producer waits for a free buffer, or goes and writes the queue itself. -/
theorem produce_getFree {next : Then} (pc : m.producer = .getFree next)
    (step : m.produce = some m') : m'.Sound cBuffers := by
  have reserved := sound.reserved_none (by rw [pc]; exact ProducerPc.noConfusion)
  have resting : m.strm.hIoThread = false → m.writer.held = [] := by
    intro alone
    apply sound.resting alone
    rw [pc]
    simp
  have shape := sound.shape
  rw [Shape, pc] at shape
  obtain ⟨cur, small⟩ := shape
  have phase : (m.Open ∧ next ≠ .setEnd ∧ next ≠ .close) ∨ (m.Sealing ∧ next = .setEnd) := by
    rcases sound.phase_at pc with phase | phase | ⟨-, overPc⟩
    · exact .inl phase
    · exact .inr phase
    · cases overPc
  have quiet : m.Quiet := by
    rcases phase with ⟨phase, -⟩ | ⟨phase, -⟩ <;> exact phase.toQuiet
  unfold produce at step
  rw [pc] at step
  simp only at step
  split at step
  · rename_i id pFree free
    cases step
    have zero := sound.content.empty cur
    have got := sound.getFreeTo free cur
    rcases phase with ⟨open', notEnd, notClose⟩ | ⟨sealing, rfl⟩
    · have held : ∀ q, q.todo = m.producer.todo → OpenPc q → (∀ strm, strm.pCur = some id →
          (m.setStrm strm q).Shape) →
          (m.setStrm (m.strm.getFreeBuf id pFree) q).Sound cBuffers := by
        intro q todo openPc fits
        exact got q todo reserved fits resting (fun _ => .inl ⟨open', openPc⟩) quiet
      have inHand : ∀ next : Then, (∀ cb, next = .reserve cb → cb ≤ cbBuf) → ∀ strm,
          strm.pCur = some id → (m.setStrm strm (.flush next)).Shape := by
        intro next small strm some
        refine ⟨?_, small⟩
        intro none
        cases some.symm.trans none
      have isOpen : ∀ q, OpenPc q → (m.setStrm (m.strm.getFreeBuf id pFree) q).Open := by
        intro q openPc
        have fresh := sound.placed.free_notMem (by rw [free]; exact mem_cons_self)
        refine ⟨quiet.congr (.of_update rfl rfl rfl rfl fresh), ?_, open'.ended, openPc⟩
        intro i eq
        cases eq
        simp [flagged, setStrm, SsmStrm.getFreeBuf, SsmStrm.setBuf]
      cases next with
      | ret => exact held .ready (by rw [pc]; rfl) trivial fun _ _ => trivial
      | close => exact absurd rfl notClose
      | setEnd => exact absurd rfl notEnd
      | write bytes =>
        have fresh := held (.flush (.write bytes)) (by rw [pc]; rfl) Then.noConfusion
          (inHand _ small)
        have whole := fresh.content.bytes
        refine fresh.append _ (bytes.drop cbBuf) rfl ?_ reserved ?_ ?_
          (isOpen _ Then.noConfusion) resting
        · rw [length_take]
          have off : (m.setStrm (m.strm.getFreeBuf id pFree)
            (.flush (.write bytes))).strm.off = 0 := zero
          omega
        · refine Eq.trans ?_ whole
          congr 1
          split
          · rename_i none
            simp only [ProducerPc.todo, Then.todo, append_nil]
            exact take_of_length_le (drop_eq_nil_iff.1 none)
          · exact take_append_drop _ _
        · split
          · exact .inl rfl
          · exact .inr rfl
      | reserve cb =>
        have fresh := held (.flush (.reserve cb)) (by rw [pc]; rfl) Then.noConfusion
          (inHand _ small)
        have content := fresh.content
        have open'' := isOpen .ready trivial
        refine ⟨fresh.placed, ⟨content.bytes, content.row, content.crc, content.fits,
          content.behind, content.empty⟩, trivial, ?_, fun alone _ => resting alone,
          .inl ⟨open''.toQuiet.congr (.of_bufs rfl rfl rfl rfl), open''.current, open''.ended,
            trivial⟩⟩
        intro id' off cb' space
        cases space
        refine ⟨rfl, rfl, rfl, ?_, open'.ended⟩
        have off : (m.setStrm (m.strm.getFreeBuf id pFree) .ready).strm.off = 0 := zero
        have le := small cb rfl
        omega
    · have fresh : (m.setStrm (m.strm.getFreeBuf id pFree) (.flush .ret)).Sound cBuffers := by
        refine got _ (by rw [pc]; rfl) reserved ?_ resting (fun _ => .inr ⟨sealing, rfl⟩) quiet
        intro strm some
        refine ⟨?_, ?_⟩
        · intro none
          cases some.symm.trans none
        · intro cb eq
          cases eq
      have quiet' : (m.setStrm (m.strm.getFreeBuf id pFree) (.flush .ret)).Quiet :=
        quiet.congr (.of_update rfl rfl rfl rfl
          (sound.placed.free_notMem (by rw [free]; exact mem_cons_self)))
      have flagged := fresh.flagCurrent rfl quiet' reserved rfl resting
      have same : (m.setStrm (m.strm.getFreeBuf id pFree) .ready).useFresh id .setEnd =
          { m.setStrm (m.strm.getFreeBuf id pFree) (.flush .ret) with ended := true }.useFresh id
            .setEnd := by
        simp only [useFresh, setStrm, sealing.ended]
      rw [same]
      exact flagged
  · split at step
    · cases step
    · rename_i stuck
      cases step
      have alone : m.strm.hIoThread = false := by
        cases io : m.strm.hIoThread with
        | false => rfl
        | true => exact absurd (.inl io) stuck
      have idle := resting alone
      have same : SameQueue m { m.takeOver with producer := .writeBuffers next } :=
        .of_bufs rfl (queue_takeOver idle) rfl
      have whole := sound.content.bytes
      rw [pc] at whole
      have quiet' : { m.takeOver with producer := .writeBuffers next }.Quiet :=
        (quiet.takeOver idle).congr (.of_bufs rfl rfl rfl rfl)
      refine ⟨sound.placed.takeOver idle, sound.content.congr same.flushed same.blocks rfl rfl rfl rfl
        rfl rfl whole, ⟨cur, rfl, alone, small⟩, ?_, ?_, ?_⟩
      · intro _ _ _ eq
        cases reserved.symm.trans eq
      · intro _ away
        exact absurd rfl (away next)
      · rcases phase with ⟨open', pcOpen⟩ | ⟨sealing, eq⟩
        · refine .inl ⟨quiet', ?_, open'.ended, pcOpen⟩
          intro i eq
          cases cur.symm.trans eq
        · exact .inr (.inl ⟨quiet', sealing.ended, eq⟩)

/-- The writing of the queue on the producer's own thread is over. -/
theorem produce_writeBuffers {next : Then} (pc : m.producer = .writeBuffers next)
    (step : m.produce = some m') : m'.Sound cBuffers := by
  have reserved := sound.reserved_none (by rw [pc]; exact ProducerPc.noConfusion)
  have shape := sound.shape
  rw [Shape, pc] at shape
  obtain ⟨cur, head, alone, small⟩ := shape
  have whole := sound.content.bytes
  rw [pc] at whole
  have held : m.writer.held = [] := by
    unfold produce at step
    rw [pc] at step
    simp only at step
    split at step
    · rename_i eq
      rw [eq]
      rfl
    · rename_i eq
      rw [eq]
      rfl
    · cases step
  have toWrite : m.writer.toWrite = [] := eq_nil_of_sublist_nil (held ▸ m.writer.toWrite_sublist)
  -- whatever comes next, the writer has nothing
  have done : ∀ (w : WriterPc) (q : ProducerPc), w.held = [] → q.todo = next.todo →
      { m with writer := w, producer := q }.Shape → { m with writer := w, producer := q }.Phase →
      { m with writer := w, producer := q }.Sound cBuffers := by
    intro w q none todo shape phase
    have none' : w.toWrite = [] := eq_nil_of_sublist_nil (none ▸ w.toWrite_sublist)
    have same : SameQueue m { m with writer := w, producer := q } :=
      .of_bufs rfl (by rw [StrmMachine.queue, StrmMachine.queue, none', toWrite]) rfl
    refine ⟨?_, sound.content.congr same.flushed same.blocks rfl rfl rfl rfl rfl rfl ?_, shape, ?_,
      fun _ _ => none, phase⟩
    · have placed := sound.placed
      rw [Placed, places, held] at placed
      rwa [Placed, places, none]
    · rw [todo]
      exact whole
    · intro _ _ _ eq
      cases reserved.symm.trans eq
  have onward : next ≠ .close → { m with writer := .idle, producer := .getFree next }.Sound cBuffers := by
    intro notClose
    apply done .idle (.getFree next) rfl rfl ⟨cur, small⟩
    have quiet' : m.Quiet → { m with writer := .idle, producer := .getFree next }.Quiet := by
      intro quiet
      refine ⟨?_, ?_, ⟨WriterPc.noConfusion, WriterPc.noConfusion⟩, quiet.open'⟩
      · intro i mem
        rw [StrmMachine.queue] at mem
        simp [WriterPc.toWrite, head] at mem
      · intro i pHead eq
        cases eq
    rcases sound.phase_at pc with ⟨phase, openPc⟩ | ⟨phase, sealingPc⟩ | ⟨-, overPc⟩
    · exact .inl ⟨quiet' phase.toQuiet, phase.current, phase.ended, openPc⟩
    · exact .inr (.inl ⟨quiet' phase.toQuiet, phase.ended, sealingPc⟩)
    · exact absurd overPc notClose
  have closed : next = .close → { m with writer := .done, producer := .closed }.Sound cBuffers := by
    rintro rfl
    apply done .done .closed rfl rfl cur
    have empty' : { m with writer := .done, producer := .closed }.queue = [] := by
      rw [StrmMachine.queue]
      simp [WriterPc.toWrite, head]
    refine .inr (.inr ⟨cur, trivial, ?_, ?_, fun _ => empty', ?_, fun _ => .inr rfl,
      fun _ => ⟨empty', rfl⟩⟩)
    · intro i mem
      rw [empty'] at mem
      cases mem
    · intro i pHead eq
      cases eq
    · intro eq
      cases eq
  have result : (next = .close ∧ m' = { m with writer := .done, producer := .closed }) ∨
      (next ≠ .close ∧ m' = { m with writer := .idle, producer := .getFree next }) := by
    unfold produce at step
    rw [pc] at step
    simp only at step
    split at step
    · have eq := (some.inj step).symm
      cases next with
      | close => exact .inl ⟨rfl, eq⟩
      | _ => exact .inr ⟨Then.noConfusion, eq⟩
    · have eq := (some.inj step).symm
      cases next with
      | close => exact .inl ⟨rfl, eq⟩
      | _ => exact .inr ⟨Then.noConfusion, eq⟩
    · cases step
  obtain ⟨eq, rfl⟩ | ⟨notClose, rfl⟩ := result
  · exact closed eq
  · exact onward notClose

theorem produce_join (pc : m.producer = .join) (step : m.produce = some m') :
    m'.Sound cBuffers := by
  have reserved := sound.reserved_none (by rw [pc]; exact ProducerPc.noConfusion)
  have shape := sound.shape
  rw [Shape, pc] at shape
  have whole := sound.content.bytes
  rw [pc] at whole
  have ending : m.Over := by
    rcases sound.phase_at pc with ⟨-, openPc⟩ | ⟨-, sealingPc⟩ | ⟨phase, -⟩
    · cases openPc
    · cases sealingPc
    · exact phase
  unfold produce at step
  rw [pc] at step
  simp only at step
  split at step
  · rename_i done
    cases step
    refine ⟨sound.placed, sound.content.congr rfl rfl rfl rfl rfl rfl rfl rfl whole, shape.1, ?_, ?_,
      .inr (.inr ⟨ending.empty, trivial, ending.last, ending.freeing, ending.done,
        ending.terminating, fun _ => .inr rfl, fun _ => ⟨ending.done done, done⟩⟩)⟩
    · intro _ _ _ eq
      cases reserved.symm.trans eq
    · intro alone
      cases shape.2.symm.trans alone
  · cases step

/-- A step of the producer keeps the invariant. -/
theorem produce (step : m.produce = some m') : m'.Sound cBuffers := by
  cases pc : m.producer with
  | ready =>
    unfold StrmMachine.produce at step
    rw [pc] at step
    cases step
  | flush next =>
    cases cur : m.strm.pCur with
    | none =>
      unfold StrmMachine.produce at step
      rw [pc, cur] at step
      cases step
    | some id => exact sound.produce_flush pc cur step
  | getFree next => exact sound.produce_getFree pc step
  | writeBuffers next => exact sound.produce_writeBuffers pc step
  | join => exact sound.produce_join pc step
  | closed =>
    unfold StrmMachine.produce at step
    rw [pc] at step
    cases step

/-! ### Steps of the writer -/

theorem not_closed (running : m.writer ≠ .done) : m.producer ≠ .closed := by
  intro pc
  rcases sound.phase_at pc with ⟨-, openPc⟩ | ⟨-, sealingPc⟩ | ⟨phase, -⟩
  · cases openPc
  · cases sealingPc
  · exact running (phase.closed pc).2

/-- The writer goes from one place to another without a buffer. -/
theorem turn (w : WriterPc) (held : m.writer.held = []) (held' : w.held = [])
    (running : m.writer ≠ .done) (done : w = .done → m.strm.pHead = [] ∧ m.Over)
    (terminating : w = .terminating → m.strm.fTerminating = true) :
    { m with writer := w }.Sound cBuffers := by
  have none : m.writer.toWrite = [] := eq_nil_of_sublist_nil (held ▸ m.writer.toWrite_sublist)
  have none' : w.toWrite = [] := eq_nil_of_sublist_nil (held' ▸ w.toWrite_sublist)
  have queue : { m with writer := w }.queue = m.queue := by
    rw [StrmMachine.queue, StrmMachine.queue, none, none']
  have same : SameQueue m { m with writer := w } := .of_bufs rfl queue rfl
  have noFreeing : ∀ i pHead, w ≠ .freeing i pHead := by
    rintro i pHead rfl
    cases held'
  have quiet' : m.Quiet → (w ≠ .done) → { m with writer := w }.Quiet := by
    intro quiet notDone
    refine ⟨?_, ?_, ⟨notDone, ?_⟩, quiet.open'⟩
    · intro i mem
      rw [queue] at mem
      exact quiet.queue i mem
    · intro i pHead eq
      exact absurd eq (noFreeing i pHead)
    · intro eq
      cases quiet.open'.symm.trans (terminating eq)
  refine ⟨?_, sound.content.congr same.flushed same.blocks rfl rfl rfl rfl rfl rfl
    sound.content.bytes, sound.shape, sound.reserved, fun _ _ => held', ?_⟩
  · have placed := sound.placed
    rw [Placed, places, held] at placed
    rwa [Placed, places, held']
  · rcases sound.phase with phase | phase | phase
    · refine .inl ⟨quiet' phase.toQuiet ?_, phase.current, phase.ended, phase.pc⟩
      intro eq
      have ending := (done eq).2.pc
      have openPc := phase.pc
      have ended := phase.ended
      rw [ended] at ending
      cases pc : m.producer <;> rw [pc] at ending openPc <;> simp_all [OverPc, OpenPc]
    · refine .inr (.inl ⟨quiet' phase.toQuiet ?_, phase.ended, phase.pc⟩)
      intro eq
      have ending := (done eq).2.pc
      have sealingPc := phase.pc
      cases pc : m.producer <;> rw [pc] at ending sealingPc <;> simp_all [OverPc, SealingPc]
    · refine .inr (.inr ⟨phase.empty, phase.pc, ?_, ?_, ?_, terminating, phase.waits, ?_⟩)
      · intro i mem flag
        rw [queue] at mem ⊢
        exact phase.last i mem flag
      · intro i pHead eq
        exact absurd eq (noFreeing i pHead)
      · intro eq
        rw [queue, StrmMachine.queue, none, (done eq).1]
        rfl
      · intro pc
        exact absurd pc (sound.not_closed running)

theorem write_takeOver (threaded : m.strm.hIoThread = true) (idle : m.writer = .idle) :
    m.takeOver.Sound cBuffers := by
  have held : m.writer.held = [] := by rw [idle]; rfl
  have queue := queue_takeOver held
  have same : SameQueue m m.takeOver := .of_bufs rfl queue rfl
  refine ⟨sound.placed.takeOver held, sound.content.congr same.flushed same.blocks rfl rfl rfl rfl rfl
    rfl sound.content.bytes, sound.shape.takeOver, sound.reserved, ?_, ?_⟩
  · intro alone
    cases threaded.symm.trans alone
  · rcases sound.phase with phase | phase | phase
    · exact .inl ⟨phase.toQuiet.takeOver held, phase.current, phase.ended, phase.pc⟩
    · exact .inr (.inl ⟨phase.toQuiet.takeOver held, phase.ended, phase.pc⟩)
    · refine .inr (.inr ⟨phase.empty, phase.pc, ?_, ?_, ?_, ?_, phase.waits, ?_⟩)
      · intro i mem flag
        rw [queue] at mem ⊢
        exact phase.last i mem flag
      · intro i pHead eq
        cases eq
      · intro eq
        cases eq
      · intro eq
        cases eq
      · intro pc
        refine absurd pc (sound.not_closed ?_)
        rw [idle]
        exact WriterPc.noConfusion

theorem queue_nodup : m.queue.Nodup := by
  have nodup := sound.placed.nodup
  rw [places] at nodup
  obtain ⟨-, nodup, -⟩ := nodup_append.1 nodup
  obtain ⟨heads, nodup', apart⟩ := nodup_append.1 nodup
  obtain ⟨held, -, -⟩ := nodup_append.1 nodup'
  refine nodup_append.2 ⟨held.sublist m.writer.toWrite_sublist, nodup_reverse.2 heads, ?_⟩
  intro a memA b memB eq
  subst eq
  exact apart a (mem_reverse.1 memB) a
    (mem_append_left _ (m.writer.toWrite_sublist.subset memA)) rfl

/-- `pfnWrite` is called with the next buffer. -/
theorem write_next {pHead : List Nat} (writing : m.writer = .writing (id :: pHead)) :
    { m with
      writes := m.writes ++ [((m.strm.bufs id).offStream, (m.strm.bufs id).bytes)]
      writer := .freeing id pHead }.Sound cBuffers := by
  set m' : StrmMachine := { m with
    writes := m.writes ++ [((m.strm.bufs id).offStream, (m.strm.bufs id).bytes)]
    writer := .freeing id pHead } with def'
  have queue : m.queue = id :: m'.queue := by
    rw [StrmMachine.queue, StrmMachine.queue, writing]
    rfl
  have flushed : m'.flushed = m.flushed := by
    rw [StrmMachine.flushed, StrmMachine.flushed, queue, flatMap_cons, ← append_assoc]
    simp [def']
  have blocks : m'.blocks = m.blocks := by
    rw [StrmMachine.blocks, StrmMachine.blocks, queue, map_cons]
    simp [def', SsmStrmBuf.bytes, length_bytesAt]
  have notDone : m.writer ≠ .done := by
    rw [writing]
    exact WriterPc.noConfusion
  have quiet' : m.Quiet → m'.Quiet := by
    intro quiet
    refine ⟨?_, ?_, ⟨WriterPc.noConfusion, WriterPc.noConfusion⟩, quiet.open'⟩
    · intro i mem
      exact quiet.queue i (by rw [queue]; exact mem_cons_of_mem _ mem)
    · intro i pHead' eq
      cases eq
      exact quiet.queue id (by rw [queue]; exact mem_cons_self)
  refine ⟨?_, sound.content.congr flushed blocks rfl rfl rfl rfl rfl rfl sound.content.bytes,
    sound.shape, sound.reserved, ?_, ?_⟩
  · have placed := sound.placed
    rw [Placed, places, writing] at placed
    exact placed
  · intro alone away
    have held := sound.resting alone away
    rw [writing] at held
    cases held
  · rcases sound.phase with phase | phase | phase
    · exact .inl ⟨quiet' phase.toQuiet, phase.current, phase.ended, phase.pc⟩
    · exact .inr (.inl ⟨quiet' phase.toQuiet, phase.ended, phase.pc⟩)
    · refine .inr (.inr ⟨phase.empty, phase.pc, ?_, ?_, ?_, ?_, phase.waits, ?_⟩)
      · intro i mem flag
        have last := phase.last i (by rw [queue]; exact mem_cons_of_mem _ mem) flag
        rw [queue, getLast?_cons, some_inj] at last
        cases rest : m'.queue.getLast? with
        | none =>
          rw [getLast?_eq_none_iff] at rest
          rw [rest] at mem
          cases mem
        | some j =>
          rw [rest] at last
          exact congrArg some last
      · intro i pHead' eq flag
        cases eq
        have last := phase.last id (by rw [queue]; exact mem_cons_self) flag
        rw [queue, getLast?_cons, some_inj] at last
        have nodup := sound.queue_nodup
        rw [queue] at nodup
        cases rest : m'.queue.getLast? with
        | none => exact getLast?_eq_none_iff.1 rest
        | some j =>
          rw [rest] at last
          have mem := mem_of_getLast? rest
          have eq : j = id := last
          subst eq
          exact absurd mem (nodup_cons.1 nodup).1
      · intro eq
        cases eq
      · intro eq
        cases eq
      · intro pc
        exact absurd pc (sound.not_closed notDone)

/-- A buffer that has been written is free again. The writer stops at the flagged one, which is
the last. -/
theorem write_free {pHead : List Nat} (freeing : m.writer = .freeing id pHead) :
    { m with
      strm := { m.strm with pFree := id :: m.strm.pFree }
      writer := if (m.strm.bufs id).fEndOfStream then .done else .writing pHead }.Sound
      cBuffers := by
  have notDone : m.writer ≠ .done := by
    rw [freeing]
    exact WriterPc.noConfusion
  set m' : StrmMachine := { m with
    strm := { m.strm with pFree := id :: m.strm.pFree }
    writer := if (m.strm.bufs id).fEndOfStream then .done else .writing pHead } with def'
  have ending : m.flagged id → m.Over ∧ m.queue = [] := by
    intro flag
    rcases sound.phase with phase | phase | phase
    · exact absurd flag (phase.freeing id pHead freeing)
    · exact absurd flag (phase.freeing id pHead freeing)
    · exact ⟨phase, phase.freeing id pHead freeing flag⟩
  have queue : m'.queue = m.queue := by
    by_cases flag : m.flagged id
    · have empty := (ending flag).2
      have heads : m.strm.pHead = [] := by
        rw [StrmMachine.queue] at empty
        exact reverse_eq_nil_iff.1 (append_eq_nil_iff.1 empty).2
      have done : m'.writer = .done := if_pos flag
      rw [empty, StrmMachine.queue, done, heads]
      rfl
    · have writing : m'.writer = .writing pHead := if_neg flag
      rw [StrmMachine.queue, StrmMachine.queue, writing, freeing]
      rfl
  have held : m'.writer.held = pHead := by
    by_cases flag : m.flagged id
    · have done : m'.writer = .done := if_pos flag
      have empty := (ending flag).2
      rw [StrmMachine.queue, freeing] at empty
      rw [done]
      exact (append_eq_nil_iff.1 empty).1.symm
    · have writing : m'.writer = .writing pHead := if_neg flag
      rw [writing]
      rfl
  have same : SameQueue m m' := .of_bufs rfl queue rfl
  have quiet' : m.Quiet → m'.Quiet := by
    intro quiet
    have writing : m'.writer = .writing pHead := if_neg (quiet.freeing id pHead freeing)
    refine ⟨?_, ?_, ?_, quiet.open'⟩
    · intro i mem
      rw [queue] at mem
      exact quiet.queue i mem
    · intro i pHead' eq
      cases writing.symm.trans eq
    · rw [writing]
      exact ⟨WriterPc.noConfusion, WriterPc.noConfusion⟩
  refine ⟨?_, sound.content.congr same.flushed same.blocks rfl rfl rfl rfl rfl rfl
    sound.content.bytes, sound.shape, sound.reserved, ?_, ?_⟩
  · refine Perm.trans ?_ sound.placed
    rw [perm_iff_count]
    intro a
    rw [places, places, held, freeing]
    simp only [def', WriterPc.held, count_append, count_cons]
    omega
  · intro alone away
    have none := sound.resting alone away
    rw [freeing] at none
    cases none
  · rcases sound.phase with phase | phase | phase
    · exact .inl ⟨quiet' phase.toQuiet, phase.current, phase.ended, phase.pc⟩
    · exact .inr (.inl ⟨quiet' phase.toQuiet, phase.ended, phase.pc⟩)
    · refine .inr (.inr ⟨phase.empty, phase.pc, ?_, ?_, ?_, ?_, phase.waits, ?_⟩)
      · intro i mem flag
        rw [queue] at mem ⊢
        exact phase.last i mem flag
      · intro i pHead' eq
        simp only [def'] at eq
        split at eq <;> cases eq
      · intro eq
        simp only [def'] at eq
        split at eq
        · rename_i flag
          rw [queue]
          exact (ending flag).2
        · cases eq
      · intro eq
        simp only [def'] at eq
        split at eq <;> cases eq
      · intro pc
        exact absurd pc (sound.not_closed notDone)

/-- A step of the writer keeps the invariant. -/
theorem write (step : m.write = some m') : m'.Sound cBuffers := by
  unfold StrmMachine.write at step
  split at step
  · rename_i idle
    have held : m.writer.held = [] := by rw [idle]; rfl
    split at step
    · rename_i threaded
      cases step
      split
      · exact sound.turn .checking held rfl (by rw [idle]; exact WriterPc.noConfusion)
          WriterPc.noConfusion WriterPc.noConfusion
      · exact sound.write_takeOver threaded idle
    · cases step
  · rename_i checking
    cases step
    have held : m.writer.held = [] := by rw [checking]; rfl
    have running : m.writer ≠ .done := by rw [checking]; exact WriterPc.noConfusion
    split
    · rename_i terminating
      exact sound.turn .terminating held rfl running WriterPc.noConfusion fun _ => terminating
    · exact sound.turn .idle held rfl running WriterPc.noConfusion WriterPc.noConfusion
  · rename_i terminating
    cases step
    have held : m.writer.held = [] := by rw [terminating]; rfl
    have running : m.writer ≠ .done := by rw [terminating]; exact WriterPc.noConfusion
    have ending : m.Over := by
      rcases sound.phase with phase | phase | phase
      · exact absurd terminating phase.running.2
      · exact absurd terminating phase.running.2
      · exact phase
    split
    · rename_i empty
      exact sound.turn .done held rfl running (fun _ => ⟨empty, ending⟩) WriterPc.noConfusion
    · exact sound.turn .idle held rfl running WriterPc.noConfusion WriterPc.noConfusion
  · rename_i writing
    split at step
    · cases step
      exact sound.turn .checking (by rw [writing]; rfl) rfl
        (by rw [writing]; exact WriterPc.noConfusion) WriterPc.noConfusion WriterPc.noConfusion
    · cases step
  · rename_i id pHead writing
    cases step
    exact sound.write_next writing
  · rename_i id pHead freeing
    cases step
    exact sound.write_free freeing
  · cases step

end Sound

/-! ### Runs -/

/-- Every step that follows the order of the callers keeps the invariant. -/
theorem Sound.step {label : StrmLabel} (sound : m.Sound cBuffers) (inOrder : m.InOrder label)
    (step : StrmStep m label m') : m'.Sound cBuffers := by
  unfold StrmStep next at step
  cases label with
  | call c =>
    simp only at step
    split at step
    · rename_i ready
      exact sound.call ready inOrder step
    · cases step
  | producer => exact sound.produce step
  | writer => exact sound.write step

theorem init_sound (cBuffers : Nat) (hIoThread : Bool) (bufs : Nat → SsmStrmBuf) :
    (init cBuffers hIoThread bufs).Sound cBuffers := by
  refine ⟨?_, ⟨rfl, rfl, rfl, Nat.zero_le _, le_refl _, fun _ => rfl⟩, trivial, ?_, fun _ _ => rfl,
    .inl ⟨⟨?_, ?_, ⟨WriterPc.noConfusion, WriterPc.noConfusion⟩, rfl⟩, ?_, rfl, trivial⟩⟩
  · rw [Placed, places]
    simp [init, WriterPc.held, reverse_perm]
  · intro _ _ _ eq
    cases eq
  · intro i mem
    cases mem
  · intro i pHead eq
    cases eq
  · intro i eq
    cases eq

/-- The stream loses and reorders nothing. -/
structure Lossless (m : StrmMachine) (cBuffers : Nat) : Prop where
  /-- What `pfnWrite` has got is the start of what has been written to the stream. -/
  inOrder : m.writes.flatMap (·.2) <+: m.asked
  /-- The offsets are consecutive. -/
  offsets : ∃ stop, Consecutive 0 (m.writes.map fun w => (w.1, w.2.length)) stop
  /-- Behind the close it has got all. -/
  all : m.producer = .closed → m.writes.flatMap (·.2) = m.asked
  /-- Every buffer is in exactly one of `pFree`, `pHead`, the list being written and `pCur`. -/
  once : (m.strm.pFree ++ (m.strm.pHead ++ (m.writer.held ++ m.strm.pCur.toList))).Perm
    (List.range cBuffers)
  /-- The checksum between two calls is the one of all bytes so far. -/
  crc : m.producer = .ready → m.strm.curCRC.2 = crc32Process crc32Start m.asked

theorem Consecutive.of_append {start stop : Nat} {blocks more : List (Nat × Nat)}
    (row : Consecutive start (blocks ++ more) stop) : ∃ mid, Consecutive start blocks mid := by
  induction blocks generalizing start with
  | nil => exact ⟨start, rfl⟩
  | cons block blocks ih =>
    obtain ⟨mid, rest⟩ := ih row.2
    exact ⟨mid, row.1, rest⟩

/-- Asking for the checksum catches up with the current buffer. -/
theorem Content.curCRC (content : m.Content) :
    m.strm.curCRC.2 = crc32Process crc32Start (m.flushed ++ m.current) := by
  have crc := content.crc
  unfold SsmStrm.curCRC
  split
  · rename_i cur
    have current : m.current = [] := by
      unfold StrmMachine.current
      rw [cur]
    rw [current, take_nil] at crc
    rw [current]
    exact crc
  · rename_i id cur
    have current : m.current = bytesAt (m.strm.bufs id).abData 0 m.strm.off := by
      unfold StrmMachine.current
      rw [cur]
    split
    · simp only
      rw [crc, current, bytesAt_split _ content.behind, take_left' (length_bytesAt _ _ _),
        ← crc32Process_append, append_assoc]
    · rename_i caught
      have eq : m.strm.offStreamCRC = m.strm.off := by
        have behind := content.behind
        omega
      rw [eq, take_of_length_le (le_of_eq (Content.current_length cur))] at crc
      exact crc

theorem Sound.lossless (sound : m.Sound cBuffers) : m.Lossless cBuffers := by
  have content := sound.content
  have bytes := content.bytes
  refine ⟨?_, Consecutive.of_append content.row, ?_, sound.placed, ?_⟩
  · rw [← bytes, flushed, append_assoc, append_assoc]
    exact prefix_append _ _
  · intro closed
    have ending : m.Over := by
      rcases sound.phase with phase | phase | phase
      · have openPc := phase.pc
        rw [closed] at openPc
        cases openPc
      · have sealingPc := phase.pc
        rw [closed] at sealingPc
        cases sealingPc
      · exact phase
    have current : m.current = [] := by
      unfold StrmMachine.current
      rw [ending.empty]
    rw [flushed, (ending.closed closed).1, current, closed] at bytes
    simpa [ProducerPc.todo] using bytes
  · intro ready
    rw [content.curCRC, sound.bytes_of_ready ready]

/-- A stream that is used in order loses and reorders nothing, whatever the number of buffers
and however the I/O thread runs. -/
theorem strm_run_lossless {hIoThread : Bool} {bufs : Nat → SsmStrmBuf} {labels : List StrmLabel}
    (run : Run (Guarded InOrder StrmStep) (init cBuffers hIoThread bufs) labels m) :
    m.Lossless cBuffers :=
  (run.invariant (fun m => m.Sound cBuffers) (fun sound step => sound.step step.1 step.2)
    (init_sound cBuffers hIoThread bufs)).lossless

/-- Two writes and a commit of less than what was reserved, with the I/O thread. -/
theorem strm_run_lossless_commit :
    ∃ m, Run (Guarded InOrder StrmStep) (init 2 true fun _ => ⟨fun _ => 0, 0, 0, false⟩)
      [.call (.write [1, 2]), .producer, .writer, .call (.reserve 4), .call (.commit [3]),
        .call .curCRC, .call (.checkAndFlush true), .producer, .writer, .writer, .writer,
        .call (.write [4]), .producer, .writer, .writer, .call .setEnd, .producer, .call .close,
        .writer, .writer, .writer, .writer, .writer, .producer] m ∧
    (m.producer = .closed ∧ m.writes = [(0, [1, 2, 3]), (3, [4])]) ∧ m.Lossless 2 := by
  obtain ⟨m, run, closed⟩ := Run.exists_of_follow InOrder StrmMachine.next
    (init 2 true fun _ => ⟨fun _ => 0, 0, 0, false⟩)
    [.call (.write [1, 2]), .producer, .writer, .call (.reserve 4), .call (.commit [3]),
      .call .curCRC, .call (.checkAndFlush true), .producer, .writer, .writer, .writer,
      .call (.write [4]), .producer, .writer, .writer, .call .setEnd, .producer, .call .close,
      .writer, .writer, .writer, .writer, .writer, .producer]
    (fun m => m.producer = .closed ∧ m.writes = [(0, [1, 2, 3]), (3, [4])]) (by decide +kernel)
  exact ⟨m, run, closed, strm_run_lossless run⟩

/-- A flush between a reservation and its commit takes the reserved buffer away, and what is
committed is lost. -/
theorem checkAndFlush_reserved_loses :
    ∃ m, Run StrmStep (init 2 true fun _ => ⟨fun _ => 0, 0, 0, false⟩)
      [.call (.write [1]), .producer, .call (.reserve 1), .call (.checkAndFlush true), .producer,
        .call (.commit [2]), .call .setEnd, .producer, .producer, .call .close,
        .writer, .writer, .writer, .writer, .writer, .producer] m ∧
    m.producer = .closed ∧ m.asked = [1, 2] ∧ m.writes.flatMap (·.2) = [1, 0] := by
  obtain ⟨m, run, lost⟩ := Run.exists_of_follow (fun _ _ => True) StrmMachine.next
    (init 2 true fun _ => ⟨fun _ => 0, 0, 0, false⟩)
    [.call (.write [1]), .producer, .call (.reserve 1), .call (.checkAndFlush true), .producer,
      .call (.commit [2]), .call .setEnd, .producer, .producer, .call .close,
      .writer, .writer, .writer, .writer, .writer, .producer]
    (fun m => m.producer = .closed ∧ m.asked = [1, 2] ∧ m.writes.flatMap (·.2) = [1, 0])
    (by decide +kernel)
  exact ⟨m, run.mono fun step => step.2, lost⟩

end StrmMachine

end VBox.Vmm.Ssm
