import VBox.Vmm.Pdm.CritSectRwRuns

/-!
Wake-ups of the read/write critical section.

A failing try takes its write count back without a look at the queued readers. As long as
that does not take the last write count from under them, no wake-up is lost: `RwMachine.Awake`
says that whoever's turn it is has its event signalled or somebody on the way to do so.
-/

namespace VBox.Vmm.Pdm

open VBox.Lib Option Function

/-- The places of a thread that will signal `hEvtWrite`, or goes in itself. -/
def RwPc.wakes : RwPc → Bool
  | .leaveSharedSignal | .exclGrab _ | .exclAwake | .exclGrabAwake | .exclGot | .leaveExclClear
  | .leaveExclDisown | .leaveExclRead | .leaveExclLoop _ | .leaveExclSignal => true
  | _ => false

/-- The places of a thread that will signal `hEvtRead`. -/
def RwPc.signals : RwPc → Bool
  | .leaveExclNeedReset | .leaveExclSignalRead => true
  | _ => false

/-- The places of a thread that may reset `hEvtRead`. -/
def RwPc.resets : RwPc → Bool
  | .sharedReset | .sharedResetEvent => true
  | _ => false

def RwThread.Wakes (th : RwThread) : Prop := 0 < th.cExcl ∨ th.pc.wakes = true

/-- A word a reader queues behind. -/
def Queues (old : Nat) : Prop := dirWrite old = true ∧ (cntRd old ≠ 0 ∨ cntWr old ≠ 0)

def RwPc.Queued : RwPc → Prop
  | .sharedQueue old => Queues old
  | _ => True

variable {ι : Type} [Fintype ι] [DecidableEq ι] {m m' : RwMachine ι} {as : List (ι × RwLabel)}
  {me : ι} {sect' : CritSectRw ι} {th' : RwThread} {pc pc' : RwPc}

structure RwMachine.Awake (m : RwMachine ι) : Prop where
  queued : ∀ t, (m.thread t).pc.Queued
  idle : dirWrite m.sect.u64State = true → cntWr m.sect.u64State = 0 →
    cntRd m.sect.u64State = 0
  held : dirWrite m.sect.u64State = false → 0 < cntWr m.sect.u64State →
    0 < cntRd m.sect.u64State
  writers : dirWrite m.sect.u64State = true → 0 < cntWr m.sect.u64State →
    m.sect.hEvtWrite = true ∨ ∃ t, (m.thread t).Wakes
  readers : dirWrite m.sect.u64State = false → 0 < waitCntRd m.sect.u64State →
    m.sect.hEvtRead = true ∨ ∃ t, (m.thread t).pc.signals = true
  resets : ∀ t, (m.thread t).pc.resets = true → waitCntRd m.sect.u64State = 0

/-- What a step of the thread `me` does that loses no wake-up. -/
structure Attentive (m : RwMachine ι) (me : ι) (sect' : CritSectRw ι) (th' : RwThread) :
    Prop where
  queued : th'.pc.Queued
  idle : dirWrite sect'.u64State = true → cntWr sect'.u64State = 0 → cntRd sect'.u64State = 0
  held : dirWrite sect'.u64State = false → 0 < cntWr sect'.u64State → 0 < cntRd sect'.u64State
  writers : dirWrite sect'.u64State = true → 0 < cntWr sect'.u64State →
    sect'.hEvtWrite = true ∨ th'.Wakes ∨ ∃ t, t ≠ me ∧ (m.thread t).Wakes
  readers : dirWrite sect'.u64State = false → 0 < waitCntRd sect'.u64State →
    sect'.hEvtRead = true ∨ th'.pc.signals = true ∨ ∃ t, t ≠ me ∧ (m.thread t).pc.signals = true
  resets : th'.pc.resets = true → waitCntRd sect'.u64State = 0
  others : ∀ t, t ≠ me → (m.thread t).pc.resets = true → waitCntRd sect'.u64State = 0

omit [Fintype ι] in
/-- Somebody of the new threads, by the thread that stepped or another one. -/
theorem exists_update (p : RwThread → Prop) (found : p th' ∨ ∃ t, t ≠ me ∧ p (m.thread t)) :
    ∃ t, p (update m.thread me th' t) := by
  rcases found with own | ⟨t, other, other'⟩
  · refine ⟨me, ?_⟩
    rw [update_self]
    exact own
  · refine ⟨t, ?_⟩
    rw [update_of_ne other]
    exact other'

omit [Fintype ι] in
theorem RwMachine.Awake.update (awake : m.Awake) (step : Attentive m me sect' th') :
    RwMachine.Awake ⟨sect', update m.thread me th'⟩ := by
  constructor
  · intro t
    by_cases same : t = me
    · subst same
      dsimp only
      rw [update_self]
      exact step.queued
    · dsimp only
      rw [update_of_ne same]
      exact awake.queued t
  · exact step.idle
  · exact step.held
  · intro write some
    exact (step.writers write some).imp_right (exists_update RwThread.Wakes)
  · intro read some
    exact (step.readers read some).imp_right (exists_update fun th => th.pc.signals = true)
  · intro t resets
    dsimp only at resets
    by_cases same : t = me
    · subst same
      rw [update_self] at resets
      exact step.resets resets
    · rw [update_of_ne same] at resets
      exact step.others t same resets

namespace RwMachine.Awake

section

variable (awake : m.Awake)

include awake

omit [Fintype ι] in
/-- Somebody wakes: the thread itself, or another one. -/
theorem writers_cases (me : ι) (write : dirWrite m.sect.u64State = true)
    (some : 0 < cntWr m.sect.u64State) :
    m.sect.hEvtWrite = true ∨ (m.thread me).Wakes ∨ ∃ t, t ≠ me ∧ (m.thread t).Wakes := by
  rcases awake.writers write some with signalled | ⟨t, wakes⟩
  · exact .inl signalled
  · by_cases same : t = me
    · exact .inr (.inl (same ▸ wakes))
    · exact .inr (.inr ⟨t, same, wakes⟩)

omit [Fintype ι] in
theorem readers_cases (me : ι) (read : dirWrite m.sect.u64State = false)
    (some : 0 < waitCntRd m.sect.u64State) :
    m.sect.hEvtRead = true ∨ (m.thread me).pc.signals = true ∨
      ∃ t, t ≠ me ∧ (m.thread t).pc.signals = true := by
  rcases awake.readers read some with signalled | ⟨t, signals⟩
  · exact .inl signalled
  · by_cases same : t = me
    · exact .inr (.inl (same ▸ signals))
    · exact .inr (.inr ⟨t, same, signals⟩)

omit [Fintype ι] in
/-- The state word is as it was. -/
theorem still (same : sect'.u64State = m.sect.u64State) (queued : th'.pc.Queued)
    (writers : dirWrite m.sect.u64State = true → m.sect.hEvtWrite = true ∨ (m.thread me).Wakes →
      sect'.hEvtWrite = true ∨ th'.Wakes ∨ ∃ t, t ≠ me ∧ (m.thread t).Wakes)
    (readers : 0 < waitCntRd m.sect.u64State →
      m.sect.hEvtRead = true ∨ (m.thread me).pc.signals = true →
      sect'.hEvtRead = true ∨ th'.pc.signals = true)
    (resets : th'.pc.resets = true → (m.thread me).pc.resets = true) :
    Attentive m me sect' th' := by
  constructor
  · exact queued
  · rw [same]
    exact awake.idle
  · rw [same]
    exact awake.held
  · rw [same]
    intro write some
    rcases awake.writers_cases me write some with signalled | wakes | others
    · exact writers write (.inl signalled)
    · exact writers write (.inr wakes)
    · exact .inr (.inr others)
  · rw [same]
    intro read some
    rcases awake.readers_cases me read some with signalled | signals | others
    · exact (readers some (.inl signalled)).imp_right .inl
    · exact (readers some (.inr signals)).imp_right .inl
    · exact .inr (.inr others)
  · rw [same]
    exact fun inside => awake.resets me (resets inside)
  · rw [same]
    exact fun t _ inside => awake.resets t inside

omit [Fintype ι] in
/-- Another place, with the same word and events. -/
theorem move (same : sect'.u64State = m.sect.u64State) (read : sect'.hEvtRead = m.sect.hEvtRead)
    (write : sect'.hEvtWrite = m.sect.hEvtWrite) (now : (m.thread me).pc = pc)
    (queued : th'.pc.Queued) (wakes : (m.thread me).Wakes → th'.Wakes)
    (signals : pc.signals = false) (resets : th'.pc.resets = true → pc.resets = true) :
    Attentive m me sect' th' := by
  subst now
  refine awake.still same queued (fun _ before => ?_) (fun _ before => ?_) resets
  · rw [write]
    exact before.imp_right fun woken => .inl (wakes woken)
  · rw [read]
    rcases before with signalled | pending
    · exact .inl signalled
    · rw [signals] at pending
      cases pending

omit [Fintype ι] in
/-- Another place of a thread that was not to wake anybody, unless it is inside. -/
theorem pass (same : sect'.u64State = m.sect.u64State) (read : sect'.hEvtRead = m.sect.hEvtRead)
    (write : sect'.hEvtWrite = m.sect.hEvtWrite) (now : (m.thread me).pc = pc)
    (queued : th'.pc.Queued) (excl : th'.cExcl = (m.thread me).cExcl) (wakes : pc.wakes = false)
    (signals : pc.signals = false) (resets : th'.pc.resets = true → pc.resets = true) :
    Attentive m me sect' th' := by
  refine awake.move same read write now queued (fun before => ?_) signals resets
  rcases before with inside | waking
  · exact .inl (excl ▸ inside)
  · rw [now, wakes] at waking
    cases waking

end

omit [Fintype ι] [DecidableEq ι] in
/-- A new state word, with the same events. -/
theorem word {new rd wr wait : Nat} {write : Bool} (fields : Fields new rd wr write wait)
    (queued : th'.pc.Queued) (idle : write = true → wr = 0 → rd = 0)
    (held : write = false → 0 < wr → 0 < rd) (writers : write = true → 0 < wr →
      m.sect.hEvtWrite = true ∨ th'.Wakes ∨ ∃ t, t ≠ me ∧ (m.thread t).Wakes)
    (readers : write = false → 0 < wait → m.sect.hEvtRead = true ∨ th'.pc.signals = true ∨
      ∃ t, t ≠ me ∧ (m.thread t).pc.signals = true) (resets : th'.pc.resets = true → wait = 0)
    (others : ∀ t, t ≠ me → (m.thread t).pc.resets = true → wait = 0) :
    Attentive m me { m.sect with u64State := new } th' := by
  constructor
  · exact queued
  · rw [fields.dir, fields.wr, fields.rd]
    exact idle
  · rw [fields.dir, fields.wr, fields.rd]
    exact held
  · rw [fields.dir, fields.wr]
    exact writers
  · rw [fields.dir, fields.wait]
    exact readers
  · rw [fields.wait]
    exact resets
  · rw [fields.wait]
    exact others

omit [Fintype ι] in
/-- Who wakes the writers, where the thread that steps does not. -/
theorem writers_others (awake : m.Awake) (now : (m.thread me).pc = pc)
    (outside : (m.thread me).cExcl = 0) (wakes : pc.wakes = false)
    (write : dirWrite m.sect.u64State = true) (some : 0 < cntWr m.sect.u64State) :
    m.sect.hEvtWrite = true ∨ th'.Wakes ∨ ∃ t, t ≠ me ∧ (m.thread t).Wakes := by
  rcases awake.writers_cases me write some with signalled | (inside | waking) | others
  · exact .inl signalled
  · exact absurd outside (Nat.ne_of_gt inside)
  · rw [now, wakes] at waking
    cases waking
  · exact .inr (.inr others)

omit [Fintype ι] in
theorem readers_others (awake : m.Awake) (now : (m.thread me).pc = pc)
    (signals : pc.signals = false) (read : dirWrite m.sect.u64State = false)
    (some : 0 < waitCntRd m.sect.u64State) : m.sect.hEvtRead = true ∨ th'.pc.signals = true ∨
      ∃ t, t ≠ me ∧ (m.thread t).pc.signals = true := by
  rcases awake.readers_cases me read some with signalled | pending | others
  · exact .inl signalled
  · rw [now, signals] at pending
    cases pending
  · exact .inr (.inr others)

end RwMachine.Awake

/-! ### The compare and swaps -/

theorem sharedLoop_attentive {fTryOnly : Bool} {old : Nat} (ok : m.Ok) (awake : m.Awake)
    (now : (m.thread me).pc = .sharedLoop fTryOnly old) (room : (m.thread me).pc.Room m.sect)
    (step : sharedLoop me m.sect (m.thread me) fTryOnly old = (sect', th')) :
    Attentive m me sect' th' := by
  have again : Attentive m me m.sect { m.thread me with pc := .sharedRead fTryOnly } :=
    awake.pass rfl rfl rfl now trivial rfl rfl rfl id
  have fields := fields_self m.sect.u64State
  rw [now, RwPc.Room] at room
  rw [sharedLoop] at step
  split at step
  case isTrue read =>
    rcases casState_cases step with ⟨same, result⟩ | result
    · cases result
      subst same
      have more : cntRd m.sect.u64State < 32767 := room read
      rw [read] at fields
      refine RwMachine.Awake.word (fields.setRd (c := cntRd m.sect.u64State + 1) (by omega))
        trivial (fun write => by cases write) (fun _ _ => Nat.succ_pos _)
        (fun write => by cases write) (fun _ some => ?_) (fun resets => by cases resets)
        fun t _ => awake.resets t
      exact awake.readers_others now rfl read some
    · cases result
      exact again
  case isFalse write =>
    have write : dirWrite old = true := by simpa using write
    split at step
    case isTrue empty =>
      rcases casState_cases step with ⟨same, result⟩ | result
      · cases result
        subst same
        have waiting := ok.waitCntRd_le
        refine RwMachine.Awake.word ((fields.setRd (c := 1) (by omega)).setDir) trivial
          (fun write => by cases write) (fun _ _ => Nat.one_pos) (fun write => by cases write)
          (fun _ some => ?_) (fun resets => by cases resets) fun t _ => awake.resets t
        omega
      · cases result
        exact again
    case isFalse counted =>
      split at step
      · cases step
        exact awake.pass rfl rfl rfl now trivial rfl rfl rfl id
      · split at step
        · cases step
          exact awake.pass rfl rfl rfl now trivial rfl rfl rfl id
        · cases step
          have queues : Queues old := ⟨write, by omega⟩
          exact awake.pass rfl rfl rfl now queues rfl rfl rfl id

section

variable {old : Nat} (ok : m.Ok) (awake : m.Awake)

include ok awake

theorem sharedQueue_attentive
    (now : (m.thread me).pc = .sharedQueue old) (room : (m.thread me).pc.Room m.sect)
    (step : casState m.sect (m.thread me) old
      (setWaitCntRd (setCntRd old (cntRd old + 1)) (waitCntRd old + 1))
      (m.sect, { m.thread me with pc := .sharedWait }) (.sharedRead false) = (sect', th')) :
    Attentive m me sect' th' := by
  have thread := ok.thread me
  simp only [RwThread.Ok, now] at thread
  have queues := awake.queued me
  rw [now] at queues
  obtain ⟨write, counted⟩ := queues
  have more : cntRd m.sect.u64State < 32767 := by
    rw [now] at room
    exact room
  have waiting := ok.waitCntRd_le
  rcases casState_cases step with ⟨same, result⟩ | result
  · cases result
    subst same
    have fields := ((fields_self m.sect.u64State).setRd (c := cntRd m.sect.u64State + 1)
      (by omega)).setWait (c := waitCntRd m.sect.u64State + 1) (by omega)
    rw [write] at fields
    refine RwMachine.Awake.word fields trivial (fun _ none => ?_) (fun read => by cases read)
      (fun _ some => awake.writers_others now thread rfl write some) (fun read => by cases read)
      (fun resets => by cases resets) fun t _ resets => ?_
    · have alone := awake.idle write none
      omega
    · have reading : (m.thread t).Reading := by
        right
        cases at_ : (m.thread t).pc <;> rw [at_] at resets <;> first | rfl | cases resets
      exact absurd reading (ok.reading write t)
  · cases result
    exact awake.pass rfl rfl rfl now trivial rfl rfl rfl id

theorem sharedUnwait_attentive (now : (m.thread me).pc = .sharedUnwait old)
    (step : casState m.sect (m.thread me) old (setWaitCntRd old (dec64 (waitCntRd old)))
      (m.sect, if dec64 (waitCntRd old) = 0 then { m.thread me with pc := .sharedReset }
        else { m.thread me with pc := .outside, cShared := (m.thread me).cShared + 1 })
      .sharedUnwaitRead = (sect', th')) :
    Attentive m me sect' th' := by
  have inside : (m.thread me).Reading := .inr (by rw [now]; rfl)
  have read := ok.dir_of_reading inside
  rcases casState_cases step with ⟨same, result⟩ | result
  · subst same
    have waiting : (m.thread me).pc.wait ≤ waitCntRd m.sect.u64State := ok.wait_le
    rw [now] at waiting
    have pos : 0 < waitCntRd m.sect.u64State := waiting
    have small := waitCntRd_lt (u := m.sect.u64State)
    have less := dec64_eq pos (by omega)
    have fields := (fields_self m.sect.u64State).setWait (c := waitCntRd m.sect.u64State - 1)
      (by omega)
    rw [less] at result
    rw [read] at fields
    have lower : ∀ th'' : RwThread, th''.pc.Queued →
        (th''.pc.resets = true → waitCntRd m.sect.u64State - 1 = 0) →
        Attentive m me { m.sect with
          u64State := setWaitCntRd m.sect.u64State (waitCntRd m.sect.u64State - 1) } th'' := by
      intro th'' queued resets
      refine RwMachine.Awake.word fields queued (fun write => by cases write)
        (fun _ => awake.held read) (fun write => by cases write)
        (fun _ some => awake.readers_others now rfl read pos) resets fun t _ resets => ?_
      rw [awake.resets t resets]
    split at result
    case isTrue last =>
      cases result
      exact lower _ trivial fun _ => last
    case isFalse =>
      cases result
      exact lower _ trivial fun resets => by cases resets
  · cases result
    exact awake.pass rfl rfl rfl now trivial rfl rfl rfl fun resets => by cases resets

theorem leaveSharedLoop_attentive (now : (m.thread me).pc = .leaveSharedLoop old)
    (step : leaveSharedLoop m.sect (m.thread me) old = (sect', th')) :
    Attentive m me sect' th' := by
  have thread := ok.thread me
  simp only [RwThread.Ok, now] at thread
  have inside : (m.thread me).Reading := .inl thread
  have read := ok.dir_of_reading inside
  have again : Attentive m me m.sect { m.thread me with pc := .leaveSharedReread } :=
    awake.pass rfl rfl rfl now trivial rfl rfl rfl id
  have fields := fields_self m.sect.u64State
  have small := cntRd_lt (u := m.sect.u64State)
  rw [leaveSharedLoop] at step
  split at step
  case isTrue =>
    cases step
    exact awake.pass rfl rfl rfl now trivial rfl rfl rfl id
  case isFalse =>
    split at step
    case isTrue more =>
      rcases casState_cases step with ⟨same, result⟩ | result
      · cases result
        subst same
        rw [read] at fields
        refine RwMachine.Awake.word
          (fields.setRd (c := cntRd m.sect.u64State - 1) (by omega)) trivial
          (fun write => by cases write) (fun _ some => ?_) (fun write => by cases write)
          (fun _ some => awake.readers_others now rfl read some) (fun resets => by cases resets)
          fun t _ => awake.resets t
        omega
      · cases result
        exact again
    case isFalse =>
      rcases casState_cases step with ⟨same, result⟩ | result
      · cases result
        subst same
        exact RwMachine.Awake.word ((fields.setRd (c := 0) (by omega)).setDir) trivial
          (fun _ _ => rfl) (fun read => by cases read) (fun _ _ => .inr (.inl (.inr rfl)))
          (fun read => by cases read) (fun resets => by cases resets) fun t _ => awake.resets t
      · cases result
        exact again

end

/-- A counted writer, as far as waking goes. -/
theorem exclCounted_wakes (fTryOnly : Bool) (new : Nat) :
    (exclCounted fTryOnly new).Queued ∧ (exclCounted fTryOnly new).resets = false ∧
      (dirWrite new = true → cntWr new = 1 → (exclCounted fTryOnly new).wakes = true) := by
  rw [exclCounted]
  split
  case isTrue => exact ⟨trivial, rfl, fun _ _ => rfl⟩
  case isFalse no =>
    have none : dirWrite new = true → cntWr new ≠ 1 := fun write one => no ⟨write, .inl one⟩
    split
    · exact ⟨trivial, rfl, fun write one => absurd one (none write)⟩
    · exact ⟨trivial, rfl, fun write one => absurd one (none write)⟩

theorem exclLoop_attentive {fTryOnly : Bool} {old : Nat} (ok : m.Ok) (awake : m.Awake)
    (now : (m.thread me).pc = .exclLoop fTryOnly old) (room : (m.thread me).pc.Room m.sect)
    (step : exclLoop m.sect (m.thread me) fTryOnly old = (sect', th')) :
    Attentive m me sect' th' := by
  have thread := ok.thread me
  simp only [RwThread.Ok, now] at thread
  obtain ⟨none, free⟩ := thread
  have more : cntWr m.sect.u64State < 32767 := by
    rw [now] at room
    exact room
  have again : Attentive m me m.sect { m.thread me with pc := .exclRead fTryOnly } :=
    awake.pass rfl rfl rfl now trivial rfl rfl rfl id
  have fields := fields_self m.sect.u64State
  rw [exclLoop] at step
  split at step
  case isTrue counted =>
    rcases casState_cases step with ⟨same, result⟩ | result
    · cases result
      subst same
      have made := fields.setWr (c := cntWr m.sect.u64State + 1) (by omega)
      obtain ⟨queued, resets, wakes⟩ := exclCounted_wakes fTryOnly
        (setCntWr m.sect.u64State (cntWr m.sect.u64State + 1))
      refine RwMachine.Awake.word made queued (fun _ none => by cases none) (fun read _ => ?_)
        (fun write _ => ?_) (fun read some => awake.readers_others now rfl read some)
        (fun inside => ?_) fun t _ => awake.resets t
      · -- a reader is inside, or has to be because of the writers behind it
        by_contra noReader
        have noReader : cntRd m.sect.u64State = 0 := by omega
        rcases counted with write | someReader | someWriter
        · rw [read] at write
          cases write
        · exact someReader noReader
        · exact Nat.ne_of_gt (awake.held read (Nat.pos_of_ne_zero someWriter)) noReader
      · by_cases first : cntWr m.sect.u64State = 0
        · refine .inr (.inl (.inr (wakes (made.dir.trans write) ?_)))
          rw [made.wr, first]
        · exact awake.writers_others now none rfl write (Nat.pos_of_ne_zero first)
      · rw [resets] at inside
        cases inside
    · cases result
      exact again
  case isFalse alone =>
    rcases casState_cases step with ⟨same, result⟩ | result
    · cases result
      subst same
      have made : Fields (setDir (setCntWr m.sect.u64State 1) true) _ _ _ _ :=
        (fields.setWr (c := 1) (by omega)).setDir
      obtain ⟨queued, resets, wakes⟩ := exclCounted_wakes fTryOnly
        (setDir (setCntWr m.sect.u64State 1) true)
      refine RwMachine.Awake.word made queued (fun _ none => by cases none)
        (fun read => by cases read) (fun _ _ => .inr (.inl (.inr (wakes made.dir made.wr))))
        (fun read => by cases read) (fun inside => ?_) fun t _ => awake.resets t
      rw [resets] at inside
      cases inside
    · cases result
      exact again

/-- The last write count is not taken back while the direction is to write and readers
queue. -/
def WithdrawOk (m : RwMachine ι) (a : ι × RwLabel) : Prop :=
  match (m.thread a.1).pc with
  | .exclWithdraw old => a.2 = .step → m.sect.u64State = old → dirWrite old = true →
      cntWr old = 1 → cntRd old = 0
  | _ => True

instance (m : RwMachine ι) (a : ι × RwLabel) : Decidable (WithdrawOk m a) := by
  unfold WithdrawOk
  split <;> infer_instance

theorem exclWithdraw_attentive {old : Nat} (ok : m.Ok) (awake : m.Awake)
    (now : (m.thread me).pc = .exclWithdraw old) (last : WithdrawOk m (me, .step))
    (step : casState m.sect (m.thread me) old (setCntWr old (dec64 (cntWr old)))
      (m.sect, { m.thread me with pc := .outside }) .exclWithdrawRead = (sect', th')) :
    Attentive m me sect' th' := by
  have thread := ok.thread me
  simp only [RwThread.Ok, now] at thread
  obtain ⟨none, free⟩ := thread
  simp only [WithdrawOk, now] at last
  rcases casState_cases step with ⟨same, result⟩ | result
  · cases result
    subst same
    have counted : (m.thread me).wr = 1 := by simp [RwThread.wr, now, RwPc.wr, none]
    have pos : (m.thread me).wr ≤ cntWr m.sect.u64State := ok.wr_le
    have small := cntWr_lt (u := m.sect.u64State)
    rw [dec64_eq (by omega) (by omega)]
    have fields := (fields_self m.sect.u64State).setWr (c := cntWr m.sect.u64State - 1) (by omega)
    refine RwMachine.Awake.word fields trivial (fun write nobody => ?_) (fun read some => ?_)
      (fun write _ => ?_) (fun read some => awake.readers_others now rfl read some)
      (fun resets => by cases resets) fun t _ => awake.resets t
    · exact last trivial rfl write (by omega)
    · exact awake.held read (by omega)
    · exact awake.writers_others now none rfl write (by omega)
  · cases result
    exact awake.pass rfl rfl rfl now trivial rfl rfl rfl id

theorem leaveExclLoop_attentive {old : Nat} (ok : m.Ok) (awake : m.Awake)
    (now : (m.thread me).pc = .leaveExclLoop old)
    (step : leaveExclLoop m.sect (m.thread me) old = (sect', th')) : Attentive m me sect' th' := by
  have thread := ok.thread me
  simp only [RwThread.Ok, now] at thread
  obtain ⟨none, free⟩ := thread
  have again : Attentive m me m.sect { m.thread me with pc := .leaveExclRead } :=
    awake.move rfl rfl rfl now trivial (fun _ => .inr rfl) rfl id
  have counted : (m.thread me).wr = 1 := by simp [RwThread.wr, now, RwPc.wr, none]
  have pos : (m.thread me).wr ≤ cntWr m.sect.u64State := ok.wr_le
  have small := cntWr_lt (u := m.sect.u64State)
  have less : dec64 (cntWr m.sect.u64State) = cntWr m.sect.u64State - 1 :=
    dec64_eq (by omega) (by omega)
  have fields := fields_self m.sect.u64State
  rw [leaveExclLoop] at step
  split at step
  case isTrue more =>
    rcases casState_cases step with ⟨same, result⟩ | result
    · cases result
      subst same
      rw [less] at more ⊢
      have made := fields.setWr (c := cntWr m.sect.u64State - 1) (by omega)
      have held : dirWrite m.sect.u64State = false → 0 < cntWr m.sect.u64State - 1 →
          0 < cntRd m.sect.u64State := fun read some => awake.held read (by omega)
      split
      case isTrue others =>
        exact RwMachine.Awake.word made trivial (fun _ nobody => absurd nobody (by omega)) held
          (fun _ _ => .inr (.inl (.inr rfl)))
          (fun read some => awake.readers_others now rfl read some)
          (fun resets => by cases resets) fun t _ => awake.resets t
      case isFalse nobody =>
        exact RwMachine.Awake.word made trivial (fun _ _ => more.resolve_left nobody) held
          (fun _ some => absurd some nobody)
          (fun read some => awake.readers_others now rfl read some)
          (fun resets => by cases resets) fun t _ => awake.resets t
    · cases result
      exact again
  case isFalse last =>
    rcases casState_cases step with ⟨same, result⟩ | result
    · cases result
      subst same
      have made : Fields (setDir (setCntWr m.sect.u64State 0) false) _ _ _ _ :=
        (fields.setWr (c := 0) (by omega)).setDir
      exact RwMachine.Awake.word made trivial (fun write => by cases write)
        (fun _ some => by cases some) (fun write => by cases write) (fun _ _ => .inr (.inl rfl))
        (fun resets => by cases resets) fun t _ => awake.resets t
    · cases result
      exact again

omit [Fintype ι] in
theorem RwThread.Owner.wakes {th : RwThread} (owner : th.Owner) : th.Wakes := by
  rcases owner with inside | owns
  · exact .inl inside
  · right
    cases now : th.pc <;> rw [now] at owns <;> first | rfl | cases owns

/-- A writer that does not get the handle leaves it to the thread that has it. -/
theorem grabHandle_attentive {failed : RwPc} (ok : m.Ok) (awake : m.Awake)
    (now : (m.thread me).pc = pc) (outside : (m.thread me).cExcl = 0) (owns : pc.owns = false)
    (signals : pc.signals = false) (queued : failed.Queued) (resets : failed.resets = false)
    (step : grabHandle me m.sect (m.thread me) failed = (sect', th')) :
    Attentive m me sect' th' := by
  rw [grabHandle] at step
  split at step
  case h_1 =>
    cases step
    exact awake.move rfl rfl rfl now trivial (fun _ => .inr rfl) signals
      fun inside => by cases inside
  case h_2 u writer =>
    cases step
    have owner := (ok.owner u).mp writer
    have other : u ≠ me := by
      rintro rfl
      rcases owner with inside | inside
      · exact absurd outside (Nat.ne_of_gt inside)
      · rw [now, owns] at inside
        cases inside
    refine awake.still rfl queued (fun _ _ => .inr (.inr ⟨u, other, owner.wakes⟩))
      (fun _ before => ?_) fun inside => ?_
    · rw [now, signals] at before
      exact before.imp_right fun pending => by cases pending
    · rw [resets] at inside
      cases inside

/-! ### Every step -/

theorem threadStep_attentive (ok : m.Ok) (awake : m.Awake) (room : (m.thread me).pc.Room m.sect)
    (last : WithdrawOk m (me, .step))
    (step : threadStep me m.sect (m.thread me) = some (sect', th')) : Attentive m me sect' th' := by
  have thread := ok.thread me
  cases now : (m.thread me).pc with
    simp only [RwThread.Ok, threadStep, now, some.injEq, Prod.mk.injEq] at thread step
  | outside => cases step
  | sharedRead fTryOnly =>
    obtain ⟨rfl, rfl⟩ := step
    exact awake.pass rfl rfl rfl now trivial rfl rfl rfl id
  | sharedLoop fTryOnly old =>
    exact sharedLoop_attentive ok awake now room step
  | sharedRecurse =>
    obtain ⟨rfl, rfl⟩ := step
    exact awake.pass rfl rfl rfl now trivial rfl rfl rfl id
  | sharedQueue old =>
    exact sharedQueue_attentive ok awake now room step
  | sharedWait =>
    split at step
    · cases step
      exact awake.pass rfl rfl rfl now trivial rfl rfl rfl id
    · cases step
  | sharedAwake =>
    obtain ⟨rfl, rfl⟩ := step
    split
    · exact awake.pass rfl rfl rfl now trivial rfl rfl rfl fun resets => by cases resets
    · exact awake.pass rfl rfl rfl now trivial rfl rfl rfl id
  | sharedUnwait old =>
    exact sharedUnwait_attentive ok awake now step
  | sharedUnwaitRead =>
    obtain ⟨rfl, rfl⟩ := step
    exact awake.pass rfl rfl rfl now trivial rfl rfl rfl fun resets => by cases resets
  | sharedReset =>
    obtain ⟨rfl, rfl⟩ := step
    split
    · exact awake.pass rfl rfl rfl now trivial rfl rfl rfl id
    · exact awake.pass rfl rfl rfl now trivial rfl rfl rfl fun resets => by cases resets
  | sharedResetEvent =>
    obtain ⟨rfl, rfl⟩ := step
    refine awake.still rfl trivial (fun _ before => ?_) (fun some _ => ?_)
      fun resets => by cases resets
    · rcases before with signalled | inside | waking
      · exact .inl signalled
      · exact absurd thread (Nat.ne_of_gt inside)
      · rw [now] at waking
        cases waking
    · -- nobody waits for the event any more
      have none := awake.resets me (by rw [now]; rfl)
      exact absurd none (Nat.ne_of_gt some)
  | leaveSharedRead =>
    obtain ⟨rfl, rfl⟩ := step
    split
    · exact awake.pass rfl rfl rfl now trivial rfl rfl rfl id
    · exact awake.pass rfl rfl rfl now trivial rfl rfl rfl id
  | leaveSharedLoop old =>
    exact leaveSharedLoop_attentive ok awake now step
  | leaveSharedReread =>
    obtain ⟨rfl, rfl⟩ := step
    exact awake.pass rfl rfl rfl now trivial rfl rfl rfl id
  | leaveSharedSignal =>
    obtain ⟨rfl, rfl⟩ := step
    refine awake.still rfl trivial (fun _ _ => .inl rfl) (fun _ before => ?_)
      fun resets => by cases resets
    rw [now] at before
    exact before.imp_right fun pending => by cases pending
  | leaveSharedOwner =>
    obtain ⟨rfl, rfl⟩ := step
    split
    · exact awake.pass rfl rfl rfl now trivial rfl rfl rfl id
    · exact awake.pass rfl rfl rfl now trivial rfl rfl rfl id
  | leaveSharedReads =>
    obtain ⟨rfl, rfl⟩ := step
    split
    · exact awake.pass rfl rfl rfl now trivial rfl rfl rfl id
    · exact awake.pass rfl rfl rfl now trivial rfl rfl rfl id
  | leaveSharedUnwind =>
    obtain ⟨rfl, rfl⟩ := step
    exact awake.pass rfl rfl rfl now trivial rfl rfl rfl id
  | exclOwner fTryOnly =>
    obtain ⟨rfl, rfl⟩ := step
    split
    · exact awake.pass rfl rfl rfl now trivial rfl rfl rfl id
    · exact awake.pass rfl rfl rfl now trivial rfl rfl rfl id
  | exclRecurse =>
    obtain ⟨rfl, rfl⟩ := step
    exact awake.move rfl rfl rfl now trivial (fun _ => .inl (Nat.succ_pos _)) rfl id
  | exclRead fTryOnly =>
    obtain ⟨rfl, rfl⟩ := step
    exact awake.pass rfl rfl rfl now trivial rfl rfl rfl id
  | exclLoop fTryOnly old =>
    exact exclLoop_attentive ok awake now room step
  | exclGrab fTryOnly =>
    split at step
    · have queued : RwPc.Queued .exclWithdrawRead := trivial
      exact grabHandle_attentive ok awake now thread.1 rfl rfl queued rfl step
    · have queued : RwPc.Queued .exclWait := trivial
      exact grabHandle_attentive ok awake now thread.1 rfl rfl queued rfl step
  | exclWait =>
    split at step
    · cases step
      refine awake.still rfl trivial (fun _ _ => .inr (.inl (.inr rfl))) (fun _ before => ?_)
        fun resets => by cases resets
      rw [now] at before
      exact before.imp_right fun pending => by cases pending
    · cases step
  | exclAwake =>
    obtain ⟨rfl, rfl⟩ := step
    split
    · exact awake.move rfl rfl rfl now trivial (fun _ => .inr rfl) rfl id
    case isFalse read =>
      refine awake.still rfl trivial (fun write => absurd write read) (fun _ before => ?_)
        fun resets => by cases resets
      rw [now] at before
      exact before.imp_right fun pending => by cases pending
  | exclGrabAwake =>
    have queued : RwPc.Queued .exclWait := trivial
    exact grabHandle_attentive ok awake now thread.1 rfl rfl queued rfl step
  | exclWithdrawRead =>
    obtain ⟨rfl, rfl⟩ := step
    exact awake.pass rfl rfl rfl now trivial rfl rfl rfl id
  | exclWithdraw old =>
    exact exclWithdraw_attentive ok awake now last step
  | exclGot =>
    obtain ⟨rfl, rfl⟩ := step
    exact awake.move rfl rfl rfl now trivial (fun _ => .inl Nat.one_pos) rfl id
  | leaveExclOwner =>
    obtain ⟨rfl, rfl⟩ := step
    split
    · exact awake.pass rfl rfl rfl now trivial rfl rfl rfl id
    · exact awake.pass rfl rfl rfl now trivial rfl rfl rfl id
  | leaveExclRecursions =>
    obtain ⟨rfl, rfl⟩ := step
    split
    · exact awake.pass rfl rfl rfl now trivial rfl rfl rfl id
    · exact awake.pass rfl rfl rfl now trivial rfl rfl rfl id
  | leaveExclReads =>
    obtain ⟨rfl, rfl⟩ := step
    split
    · exact awake.move rfl rfl rfl now trivial (fun _ => .inr rfl) rfl id
    · exact awake.pass rfl rfl rfl now trivial rfl rfl rfl id
  | leaveExclClear =>
    obtain ⟨rfl, rfl⟩ := step
    exact awake.move rfl rfl rfl now trivial (fun _ => .inr rfl) rfl id
  | leaveExclDisown =>
    obtain ⟨rfl, rfl⟩ := step
    exact awake.move rfl rfl rfl now trivial (fun _ => .inr rfl) rfl id
  | leaveExclRead =>
    obtain ⟨rfl, rfl⟩ := step
    exact awake.move rfl rfl rfl now trivial (fun _ => .inr rfl) rfl id
  | leaveExclLoop old =>
    exact leaveExclLoop_attentive ok awake now step
  | leaveExclSignal =>
    obtain ⟨rfl, rfl⟩ := step
    refine awake.still rfl trivial (fun _ _ => .inl rfl) (fun _ before => ?_)
      fun resets => by cases resets
    rw [now] at before
    exact before.imp_right fun pending => by cases pending
  | leaveExclNeedReset =>
    obtain ⟨rfl, rfl⟩ := step
    refine awake.still rfl trivial (fun _ before => ?_) (fun _ _ => .inr rfl)
      fun resets => by cases resets
    rcases before with signalled | inside | waking
    · exact .inl signalled
    · exact absurd thread (Nat.ne_of_gt inside)
    · rw [now] at waking
      cases waking
  | leaveExclSignalRead =>
    obtain ⟨rfl, rfl⟩ := step
    refine awake.still rfl trivial (fun _ before => ?_) (fun _ _ => .inl rfl)
      fun resets => by cases resets
    rcases before with signalled | inside | waking
    · exact .inl signalled
    · exact absurd thread (Nat.ne_of_gt inside)
    · rw [now] at waking
      cases waking
  | leaveExclUnwind =>
    obtain ⟨rfl, rfl⟩ := step
    exact awake.move rfl rfl rfl now trivial (fun _ => .inl (Nat.sub_pos_of_lt thread)) rfl id

theorem labelStep_attentive {label : RwLabel} (ok : m.Ok) (awake : m.Awake)
    (room : label = .step → (m.thread me).pc.Room m.sect) (last : WithdrawOk m (me, label))
    (step : labelStep me m.sect (m.thread me) label = some (sect', th')) :
    Attentive m me sect' th' := by
  cases label with
  | call op =>
    simp only [labelStep] at step
    split at step
    case isFalse => cases step
    case isTrue may =>
      cases step
      cases op <;> exact awake.pass rfl rfl rfl may.1 trivial rfl rfl rfl id
  | step => exact threadStep_attentive ok awake (room rfl) last step
  | spurious =>
    simp only [labelStep] at step
    split at step
    case isFalse => cases step
    case isTrue now =>
      cases step
      exact awake.move rfl rfl rfl now trivial (fun _ => .inr rfl) rfl id

/-- The counts fit, and no try takes the last write count from under queued readers. -/
def Considerate (m : RwMachine ι) (a : ι × RwLabel) : Prop := CountsFit m a ∧ WithdrawOk m a

instance (m : RwMachine ι) (a : ι × RwLabel) : Decidable (Considerate m a) :=
  inferInstanceAs (Decidable (_ ∧ _))

theorem RwMachine.Awake.step {a : ι × RwLabel} (ok : m.Ok) (awake : m.Awake)
    (considerate : Considerate m a) (step : RwStep m a m') : m'.Awake := by
  obtain ⟨sect', th', taken, rfl⟩ := RwMachine.step_cases step
  exact awake.update (labelStep_attentive ok awake considerate.1 considerate.2 taken)

omit [Fintype ι] [DecidableEq ι] in
theorem RwMachine.init_awake : (RwMachine.init ι).Awake := by
  have fields := fields_zero
  constructor
  · exact fun _ => trivial
  · exact fun _ _ => fields.rd
  · exact fun _ some => absurd fields.wr (Nat.ne_of_gt some)
  · exact fun _ some => absurd fields.wr (Nat.ne_of_gt some)
  · exact fun _ some => absurd fields.wait (Nat.ne_of_gt some)
  · intro t resets
    cases resets

theorem run_awake (run : Run (Guarded Considerate RwStep) (RwMachine.init ι) as m) :
    m.Ok ∧ m.Awake :=
  run.invariant (fun m => m.Ok ∧ m.Awake)
    (fun inv step => ⟨inv.1.step step.1.1 step.2, inv.2.step inv.1 step.1 step.2⟩)
    ⟨RwMachine.init_ok, RwMachine.init_awake⟩

/-! ### When everybody rests -/

/-- Outside without the section, or blocked in an event wait. -/
def RwThread.Resting (th : RwThread) : Prop :=
  (th.pc = .outside ∧ th.cShared = 0 ∧ th.cExcl = 0) ∨ th.pc = .sharedWait ∨ th.pc = .exclWait

instance : DecidablePred RwThread.Resting := fun _ => inferInstanceAs (Decidable (_ ∨ _))

def RwThread.Blocked (th : RwThread) : Prop := th.pc = .sharedWait ∨ th.pc = .exclWait

/-- The direction is the one a blocked thread waits for. -/
def CritSectRw.Turn (s : CritSectRw ι) : RwPc → Prop
  | .sharedWait => dirWrite s.u64State = false
  | .exclWait => dirWrite s.u64State = true
  | _ => False

/-- The event a blocked thread waits for is signalled. -/
def CritSectRw.signalled (s : CritSectRw ι) : RwPc → Bool
  | .sharedWait => s.hEvtRead
  | .exclWait => s.hEvtWrite
  | _ => false

/-- Whoever's turn it is has its event signalled, and it is somebody's turn if anybody
waits; the others wait behind those. -/
structure RwMachine.NoneLost (m : RwMachine ι) : Prop where
  turn : ∀ t, m.sect.Turn (m.thread t).pc → m.sect.signalled (m.thread t).pc = true
  some : ∀ t, (m.thread t).Blocked → ∃ u, m.sect.Turn (m.thread u).pc

section Resting

variable {th : RwThread}

omit [Fintype ι] [DecidableEq ι]

theorem RwThread.Resting.idle (resting : th.Resting) (ok : th.Ok) :
    ¬ th.Wakes ∧ th.pc.signals = false := by
  rcases resting with ⟨now, -, none⟩ | now | now
  · rw [Wakes, now, none]
    exact ⟨by rintro (some | waking) <;> contradiction, rfl⟩
  · simp only [RwThread.Ok, now] at ok
    rw [Wakes, now, ok]
    exact ⟨by rintro (some | waking) <;> contradiction, rfl⟩
  · simp only [RwThread.Ok, now] at ok
    rw [Wakes, now, ok.1]
    exact ⟨by rintro (some | waking) <;> contradiction, rfl⟩

/-- Of the resting threads, only the blocked readers are counted as readers. -/
theorem RwThread.Resting.reader (resting : th.Resting) (ok : th.Ok) (counted : th.rd ≠ 0) :
    th.pc = .sharedWait := by
  rcases resting with ⟨now, free, none⟩ | now | now
  · exact absurd (by simp [rd, now, RwPc.rd, free]) counted
  · exact now
  · simp only [RwThread.Ok, now] at ok
    exact absurd (by simp [rd, now, RwPc.rd, ok.2]) counted

theorem RwThread.Resting.writer (resting : th.Resting) (ok : th.Ok) (counted : th.wr ≠ 0) :
    th.pc = .exclWait := by
  rcases resting with ⟨now, -, none⟩ | now | now
  · exact absurd (by simp [wr, now, RwPc.wr, none]) counted
  · simp only [RwThread.Ok, now] at ok
    exact absurd (by simp [wr, now, RwPc.wr, ok]) counted
  · exact now

end Resting

omit [DecidableEq ι] in
theorem RwMachine.Ok.waiting_reader (ok : m.Ok) {t : ι} (now : (m.thread t).pc = .sharedWait) :
    0 < cntRd m.sect.u64State ∧ 0 < waitCntRd m.sect.u64State := by
  have waiting : (m.thread t).pc.wait ≤ waitCntRd m.sect.u64State := ok.wait_le
  rw [now] at waiting
  exact ⟨Nat.lt_of_lt_of_le waiting ok.waitCntRd_le, waiting⟩

omit [DecidableEq ι] in
theorem RwMachine.Ok.waiting_writer (ok : m.Ok) {t : ι} (now : (m.thread t).pc = .exclWait) :
    0 < cntWr m.sect.u64State := by
  have thread := ok.thread t
  simp only [RwThread.Ok, now] at thread
  have counted : (m.thread t).wr = 1 := by simp [RwThread.wr, now, RwPc.wr, thread.1]
  have below : (m.thread t).wr ≤ cntWr m.sect.u64State := ok.wr_le
  omega

omit [DecidableEq ι] in
theorem RwMachine.Awake.noneLost (ok : m.Ok) (awake : m.Awake)
    (resting : ∀ t, (m.thread t).Resting) : m.NoneLost := by
  constructor
  · intro t turn
    cases now : (m.thread t).pc <;> rw [now] at turn <;> try cases turn
    case sharedWait =>
      rcases awake.readers turn (ok.waiting_reader now).2 with signalled | ⟨u, signals⟩
      · exact signalled
      · rw [((resting u).idle (ok.thread u)).2] at signals
        cases signals
    case exclWait =>
      rcases awake.writers turn (ok.waiting_writer now) with signalled | ⟨u, wakes⟩
      · exact signalled
      · exact absurd wakes ((resting u).idle (ok.thread u)).1
  · intro t blocked
    cases direction : dirWrite m.sect.u64State with
    | false =>
      have reader : 0 < cntRd m.sect.u64State := by
        rcases blocked with now | now
        · exact (ok.waiting_reader now).1
        · exact awake.held direction (ok.waiting_writer now)
      rw [ok.rd] at reader
      obtain ⟨u, -, counted⟩ := Finset.exists_ne_zero_of_sum_ne_zero (Nat.ne_of_gt reader)
      refine ⟨u, ?_⟩
      rw [(resting u).reader (ok.thread u) counted]
      exact direction
    | true =>
      have writer : cntWr m.sect.u64State ≠ 0 := by
        rcases blocked with now | now
        · intro none
          exact Nat.ne_of_gt (ok.waiting_reader now).1 (awake.idle direction none)
        · exact Nat.ne_of_gt (ok.waiting_writer now)
      rw [ok.wr] at writer
      obtain ⟨u, -, counted⟩ := Finset.exists_ne_zero_of_sum_ne_zero writer
      refine ⟨u, ?_⟩
      rw [(resting u).writer (ok.thread u) counted]
      exact direction

/-- No wake-up is lost, whatever the calls and however their steps interleave. -/
theorem run_noneLost (run : Run (Guarded Considerate RwStep) (RwMachine.init ι) as m)
    (resting : ∀ t, (m.thread t).Resting) : m.NoneLost :=
  (run_awake run).2.noneLost (run_awake run).1 resting

/-- A call of a thread, with its steps. -/
def callLabels (t : ι) (op : RwOp) (steps : Nat) : List (ι × RwLabel) :=
  (t, .call op) :: List.replicate steps (t, .step)

/-- A reader queues behind a writer, who leaves. -/
theorem run_noneLost_two : ∃ m, Run (Guarded Considerate RwStep) (RwMachine.init Bool)
    (callLabels true (.enterExcl false) 5 ++ callLabels false (.enterShared false) 3 ++
      callLabels true .leaveExcl 9) m ∧
    (m.thread false).pc = .sharedWait ∧ m.sect.hEvtRead = true ∧ m.NoneLost := by
  obtain ⟨m, run, waits, resting⟩ := Run.exists_of_follow Considerate
    (fun m a => m.step a.1 a.2) (RwMachine.init Bool)
    (callLabels true (.enterExcl false) 5 ++ callLabels false (.enterShared false) 3 ++
      callLabels true .leaveExcl 9)
    (fun m => ((m.thread false).pc = .sharedWait ∧ m.sect.hEvtRead = true) ∧
      ∀ t, (m.thread t).Resting) (by decide +kernel)
  exact ⟨m, run, waits.1, waits.2, run_noneLost run resting⟩

/-- Thread 2 tries to get in while thread 0 is in exclusively and thread 1 is queued. Thread
0 leaves before the try gives up, and signals the wrong event. -/
def strandingLabels : List (Fin 3 × RwLabel) :=
  callLabels 0 (.enterExcl false) 5 ++ callLabels 1 (.enterShared false) 3 ++
    callLabels 2 (.enterExcl true) 4 ++ callLabels 0 .leaveExcl 8 ++ List.replicate 2 (2, .step)

/-- The reader stays blocked for good, with no write count and the direction to write. -/
theorem try_strands : ∃ m, Run (Guarded CountsFit RwStep) (RwMachine.init (Fin 3))
    strandingLabels m ∧ (∀ t, (m.thread t).Resting) ∧ (m.thread 1).pc = .sharedWait ∧
    m.sect.hEvtRead = false ∧ (∀ t, (m.thread t).pc ≠ .exclWait) ∧
    cntWr m.sect.u64State = 0 ∧ dirWrite m.sect.u64State = true ∧ ¬ m.NoneLost := by
  obtain ⟨m, run, resting, waits, unsignalled, alone, nobody, write⟩ := Run.exists_of_follow
    CountsFit (fun m a => m.step a.1 a.2) (RwMachine.init (Fin 3)) strandingLabels
    (fun m => (∀ t, (m.thread t).Resting) ∧ (m.thread 1).pc = .sharedWait ∧
      m.sect.hEvtRead = false ∧ (∀ t, (m.thread t).pc ≠ .exclWait) ∧
      cntWr m.sect.u64State = 0 ∧ dirWrite m.sect.u64State = true) (by decide +kernel)
  refine ⟨m, run, resting, waits, unsignalled, alone, nobody, write, fun noneLost => ?_⟩
  obtain ⟨u, turn⟩ := noneLost.some 1 (.inl waits)
  have signalled := noneLost.turn u turn
  rcases resting u with ⟨now, -⟩ | now | now
  · rw [now] at turn
    cases turn
  · rw [now] at signalled
    cases unsignalled.symm.trans signalled
  · exact alone u now

end VBox.Vmm.Pdm
