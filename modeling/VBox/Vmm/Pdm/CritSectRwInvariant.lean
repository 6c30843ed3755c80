import VBox.Lib.UpdateSum
import VBox.Vmm.Pdm.CritSectRwWord

/-!
The invariant of the read/write critical section.

`RwMachine.Ok` ties the counts of the state word to the threads, `hNativeWriter` to the one
thread that is in exclusively, and the direction to who may be inside. `RwMachine.Ok.update`
is the rule every step goes through: it asks what the step does to its own thread, and that
nobody else is inside in the wrong direction.
-/

namespace VBox.Vmm.Pdm

open VBox.Lib

/-! ### What a thread stands for -/

/-- A thread that waits for shared access, or has been let in and not returned. -/
def RwPc.rd : RwPc → Nat
  | .sharedWait | .sharedAwake | .sharedUnwait _ | .sharedUnwaitRead | .sharedReset
  | .sharedResetEvent => 1
  | _ => 0

/-- A thread that is counted as waiting for the direction to change. -/
def RwPc.wait : RwPc → Nat
  | .sharedWait | .sharedAwake | .sharedUnwait _ | .sharedUnwaitRead => 1
  | _ => 0

/-- A thread that waits or tries to get in exclusively, or is on its way in or out. -/
def RwPc.wr : RwPc → Nat
  | .exclGrab _ | .exclWait | .exclAwake | .exclGrabAwake | .exclWithdrawRead | .exclWithdraw _
  | .exclGot | .leaveExclClear | .leaveExclDisown | .leaveExclRead | .leaveExclLoop _ => 1
  | _ => 0

def RwPc.owns : RwPc → Bool
  | .exclGot | .leaveExclClear | .leaveExclDisown => true
  | _ => false

def RwPc.grabs : RwPc → Bool
  | .exclGrab _ | .exclGrabAwake => true
  | _ => false

def RwPc.reads : RwPc → Bool
  | .sharedUnwait _ | .sharedUnwaitRead | .sharedReset | .sharedResetEvent => true
  | _ => false

namespace RwThread

variable (th : RwThread)

/-- What the thread adds to the read count; the read recursions of a writer do not count. -/
def rd : Nat := th.pc.rd + if th.cExcl = 0 then th.cShared else 0

def wr : Nat := if th.cExcl = 0 then th.pc.wr else 1

def Owner : Prop := 0 < th.cExcl ∨ th.pc.owns = true

def Reading : Prop := th.cExcl = 0 ∧ 0 < th.cShared ∨ th.pc.reads = true

def Writing : Prop := th.Owner ∨ th.pc.grabs = true

/-- What a thread has entered, by what it does. -/
def Ok : Prop :=
  match th.pc with
  | .outside | .sharedRead _ | .sharedLoop .. => True
  | .sharedRecurse | .exclRecurse | .leaveExclOwner | .leaveExclRecursions => 0 < th.cExcl
  | .leaveSharedRead => 0 < th.cShared
  | .leaveSharedLoop _ | .leaveSharedReread => th.cExcl = 0 ∧ 0 < th.cShared
  | .leaveSharedOwner | .leaveSharedReads | .leaveSharedUnwind => 0 < th.cExcl ∧ 0 < th.cShared
  | .exclOwner _ => th.cShared = 0 ∨ 0 < th.cExcl
  | .leaveExclReads => th.cExcl = 1
  | .leaveExclUnwind => 1 < th.cExcl
  | .sharedQueue _ | .sharedWait | .sharedAwake | .sharedUnwait _ | .sharedUnwaitRead
  | .sharedReset | .sharedResetEvent | .leaveSharedSignal | .leaveExclSignal
  | .leaveExclNeedReset | .leaveExclSignalRead => th.cExcl = 0
  | .exclRead _ | .exclLoop .. | .exclGrab _ | .exclWait | .exclAwake | .exclGrabAwake
  | .exclWithdrawRead | .exclWithdraw _ | .exclGot | .leaveExclClear | .leaveExclDisown
  | .leaveExclRead | .leaveExclLoop _ => th.cExcl = 0 ∧ th.cShared = 0

variable {th}

theorem Reading.counted (reading : th.Reading) : th.rd ≠ 0 := by
  rw [rd]
  rcases reading with ⟨none, some⟩ | inside
  · rw [if_pos none]
    omega
  · cases pc : th.pc <;> rw [pc] at inside <;> simp [RwPc.reads] at inside <;> simp [RwPc.rd]

theorem Writing.counted (writing : th.Writing) : th.wr ≠ 0 := by
  rw [wr]
  rcases writing with (some | inside) | grabs
  · rw [if_neg (by omega)]
    exact Nat.one_ne_zero
  · split
    · cases pc : th.pc <;> rw [pc] at inside <;> simp [RwPc.owns] at inside <;> simp [RwPc.wr]
    · exact Nat.one_ne_zero
  · split
    · cases pc : th.pc <;> rw [pc] at grabs <;> simp [RwPc.grabs] at grabs <;> simp [RwPc.wr]
    · exact Nat.one_ne_zero

theorem wait_le_rd : th.pc.wait ≤ th.rd := by
  have below : th.pc.wait ≤ th.pc.rd := by cases th.pc <;> simp [RwPc.wait, RwPc.rd]
  rw [rd]
  omega

end RwThread

/-! ### The invariant -/

variable {ι : Type} [Fintype ι] [DecidableEq ι]

structure RwMachine.Ok (m : RwMachine ι) : Prop where
  thread : ∀ t, (m.thread t).Ok
  rd : cntRd m.sect.u64State = ∑ t, (m.thread t).rd
  wr : cntWr m.sect.u64State = ∑ t, (m.thread t).wr
  wait : waitCntRd m.sect.u64State = ∑ t, (m.thread t).pc.wait
  owner : ∀ t, m.sect.hNativeWriter = some t ↔ (m.thread t).Owner
  reading : dirWrite m.sect.u64State = true → ∀ t, ¬ (m.thread t).Reading
  writing : dirWrite m.sect.u64State = false → ∀ t, ¬ (m.thread t).Writing
  reads : ∀ t, (m.thread t).Owner → m.sect.cWriterReads = (m.thread t).cShared
  noReads : m.sect.hNativeWriter = none → m.sect.cWriterReads = 0
  recursions : ∀ t, 0 < (m.thread t).cExcl → m.sect.cWriteRecursions = (m.thread t).cExcl
  small : m.sect.cWriterReads < 2 ^ 32 ∧ m.sect.cWriteRecursions < 2 ^ 32

variable {m : RwMachine ι} {me : ι} {sect' : CritSectRw ι} {th th' : RwThread}

/-- What a step of the thread `me` does that is in order. -/
structure Change (m : RwMachine ι) (me : ι) (sect' : CritSectRw ι) (th' : RwThread) : Prop where
  thread : th'.Ok
  rd : cntRd sect'.u64State + (m.thread me).rd = cntRd m.sect.u64State + th'.rd
  wr : cntWr sect'.u64State + (m.thread me).wr = cntWr m.sect.u64State + th'.wr
  wait : waitCntRd sect'.u64State + (m.thread me).pc.wait =
    waitCntRd m.sect.u64State + th'.pc.wait
  owner : sect'.hNativeWriter = some me ↔ th'.Owner
  others : ∀ t, t ≠ me → (sect'.hNativeWriter = some t ↔ m.sect.hNativeWriter = some t)
  reading : dirWrite sect'.u64State = true →
    ¬ th'.Reading ∧ ∀ t, t ≠ me → ¬ (m.thread t).Reading
  writing : dirWrite sect'.u64State = false →
    ¬ th'.Writing ∧ ∀ t, t ≠ me → ¬ (m.thread t).Writing
  reads : th'.Owner → sect'.cWriterReads = th'.cShared
  noReads : sect'.hNativeWriter = none → sect'.cWriterReads = 0
  recursions : 0 < th'.cExcl → sect'.cWriteRecursions = th'.cExcl
  kept : ∀ t, t ≠ me → m.sect.hNativeWriter = some t →
    sect'.cWriterReads = m.sect.cWriterReads ∧ sect'.cWriteRecursions = m.sect.cWriteRecursions
  small : sect'.cWriterReads < 2 ^ 32 ∧ sect'.cWriteRecursions < 2 ^ 32

theorem RwMachine.Ok.update (ok : m.Ok) (change : Change m me sect' th') :
    RwMachine.Ok ⟨sect', Function.update m.thread me th'⟩ := by
  have elsewhere : ∀ p : RwThread → Prop, p th' → (∀ t, t ≠ me → p (m.thread t)) →
      ∀ t, p (Function.update m.thread me th' t) := by
    intro p own rest t
    by_cases same : t = me
    · subst same
      rw [Function.update_self]
      exact own
    · rw [Function.update_of_ne same]
      exact rest t same
  constructor
  · exact elsewhere RwThread.Ok change.thread fun t _ => ok.thread t
  · have sum := sum_update (f := m.thread) (i := me) (x := th') RwThread.rd
    have before := ok.rd
    have after := change.rd
    dsimp only
    omega
  · have sum := sum_update (f := m.thread) (i := me) (x := th') RwThread.wr
    have before := ok.wr
    have after := change.wr
    dsimp only
    omega
  · have sum := sum_update (f := m.thread) (i := me) (x := th') fun th => th.pc.wait
    have before := ok.wait
    have after := change.wait
    dsimp only
    omega
  · intro t
    dsimp only
    by_cases same : t = me
    · subst same
      rw [Function.update_self]
      exact change.owner
    · rw [Function.update_of_ne same]
      exact (change.others t same).trans (ok.owner t)
  · intro write
    obtain ⟨own, rest⟩ := change.reading write
    exact elsewhere (¬ ·.Reading) own rest
  · intro read
    obtain ⟨own, rest⟩ := change.writing read
    exact elsewhere (¬ ·.Writing) own rest
  · refine elsewhere (fun th => th.Owner → sect'.cWriterReads = th.cShared) change.reads
      fun t other owner => ?_
    have writer := (ok.owner t).mpr owner
    exact (change.kept t other writer).1.trans (ok.reads t owner)
  · exact change.noReads
  · refine elsewhere (fun th => 0 < th.cExcl → sect'.cWriteRecursions = th.cExcl) change.recursions
      fun t other some => ?_
    have writer := (ok.owner t).mpr (.inl some)
    exact (change.kept t other writer).2.trans (ok.recursions t some)
  · exact change.small

end VBox.Vmm.Pdm
