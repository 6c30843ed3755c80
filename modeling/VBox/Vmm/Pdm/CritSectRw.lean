import Mathlib.Algebra.Group.Nat.Defs
import Mathlib.Logic.Function.Basic

/-!
The read/write critical section, as ring-3 threads use it.

Each step of a thread is one access to the section: a read, a write or a compare and swap
of one of its members, or a wait, signal or reset of one of its events. What a thread
computes between two accesses belongs to the first of them. Lock validation, statistics and
the destruction of the section are left out.
-/

namespace VBox.Vmm.Pdm

/-! ### The state word -/

/-- `n` bits of a word, from bit `k` on. -/
def field (k n u : Nat) : Nat := u / 2 ^ k % 2 ^ n

/-- Clear `n` bits, and put the bits of a 64-bit number there. -/
def setField (k n u c : Nat) : Nat := (u - field k n u * 2 ^ k) ||| (c * 2 ^ k % 2 ^ 64)

/-- `RTCSRW_CNT_MASK` -/
def cntMask : Nat := 0x7fff

def cntRd (u : Nat) : Nat := field 0 15 u
def cntWr (u : Nat) : Nat := field 16 15 u
def dirWrite (u : Nat) : Bool := field 31 1 u = 1
def waitCntRd (u : Nat) : Nat := field 32 15 u

def setCntRd (u c : Nat) : Nat := setField 0 15 u c
def setCntWr (u c : Nat) : Nat := setField 16 15 u c
def setDir (u : Nat) (write : Bool) : Nat := setField 31 1 u (if write then 1 else 0)
def setWaitCntRd (u c : Nat) : Nat := setField 32 15 u c

/-- `c--` on a 64-bit number. -/
def dec64 (c : Nat) : Nat := (c + (2 ^ 64 - 1)) % 2 ^ 64

def inc32 (c : Nat) : Nat := (c + 1) % 2 ^ 32

def dec32 (c : Nat) : Nat := (c + (2 ^ 32 - 1)) % 2 ^ 32

/-! ### Section and threads -/

variable {ι : Type} [DecidableEq ι]

/-- `PDMCRITSECTRW`; an event is whether it is signalled. -/
structure CritSectRw (ι : Type) where
  u64State : Nat
  hNativeWriter : Option ι
  cWriteRecursions : Nat
  cWriterReads : Nat
  fNeedReset : Bool
  hEvtRead : Bool
  hEvtWrite : Bool

/-- What a thread does next. `u64OldState` is the word a loop has read. -/
inductive RwPc where
  | outside
  -- `pdmCritSectRwEnterShared`
  | sharedRead (fTryOnly : Bool)
  | sharedLoop (fTryOnly : Bool) (u64OldState : Nat)
  | sharedRecurse
  | sharedQueue (u64OldState : Nat)
  | sharedWait
  | sharedAwake
  | sharedUnwait (u64OldState : Nat)
  | sharedUnwaitRead
  | sharedReset
  | sharedResetEvent
  -- `pdmCritSectRwLeaveSharedWorker`
  | leaveSharedRead
  | leaveSharedLoop (u64OldState : Nat)
  | leaveSharedReread
  | leaveSharedSignal
  | leaveSharedOwner
  | leaveSharedReads
  | leaveSharedUnwind
  -- `pdmCritSectRwEnterExcl`
  | exclOwner (fTryOnly : Bool)
  | exclRecurse
  | exclRead (fTryOnly : Bool)
  | exclLoop (fTryOnly : Bool) (u64OldState : Nat)
  | exclGrab (fTryOnly : Bool)
  | exclWait
  | exclAwake
  | exclGrabAwake
  | exclWithdrawRead
  | exclWithdraw (u64OldState : Nat)
  | exclGot
  -- `pdmCritSectRwLeaveExclWorker`
  | leaveExclOwner
  | leaveExclRecursions
  | leaveExclReads
  | leaveExclClear
  | leaveExclDisown
  | leaveExclRead
  | leaveExclLoop (u64OldState : Nat)
  | leaveExclSignal
  | leaveExclNeedReset
  | leaveExclSignalRead
  | leaveExclUnwind
  deriving DecidableEq

/-- A thread, with how often it has entered and not left. -/
structure RwThread where
  pc : RwPc
  cShared : Nat
  cExcl : Nat
  deriving DecidableEq

inductive RwOp where
  | enterShared (fTryOnly : Bool)
  | leaveShared
  | enterExcl (fTryOnly : Bool)
  | leaveExcl
  deriving DecidableEq

inductive RwLabel where
  | call (op : RwOp)
  | step
  /-- A wait for `hEvtWrite` that returns without a signal. -/
  | spurious
  deriving DecidableEq

/-- What a thread may call: it leaves what it has entered, and does not ask for exclusive
access while it only has shared access. -/
def RwThread.MayCall (th : RwThread) : RwOp → Prop
  | .enterShared _ => True
  | .leaveShared => 0 < th.cShared
  | .enterExcl _ => th.cShared = 0 ∨ 0 < th.cExcl
  | .leaveExcl => 0 < th.cExcl

instance (th : RwThread) : DecidablePred th.MayCall
  | .enterShared _ => inferInstanceAs (Decidable True)
  | .leaveShared => inferInstanceAs (Decidable (_ < _))
  | .enterExcl _ => inferInstanceAs (Decidable (_ ∨ _))
  | .leaveExcl => inferInstanceAs (Decidable (_ < _))

def RwOp.start : RwOp → RwPc
  | .enterShared fTryOnly => .sharedRead fTryOnly
  | .leaveShared => .leaveSharedRead
  | .enterExcl fTryOnly => .exclOwner fTryOnly
  | .leaveExcl => .leaveExclOwner

section Steps

variable (self : ι) (s : CritSectRw ι) (th : RwThread)

/-- A compare and swap of `u64State`. -/
def casState (u64OldState new : Nat) (swapped : CritSectRw ι × RwThread) (failed : RwPc) :
    CritSectRw ι × RwThread :=
  if s.u64State = u64OldState then ({ swapped.1 with u64State := new }, swapped.2)
  else (s, { th with pc := failed })

/-- A compare and swap of `hNativeWriter`, from none to this thread. -/
def grabHandle (failed : RwPc) : CritSectRw ι × RwThread :=
  match s.hNativeWriter with
  | none => ({ s with hNativeWriter := some self }, { th with pc := .exclGot })
  | some _ => (s, { th with pc := failed })

/-- The loop of `pdmCritSectRwEnterShared`. -/
def sharedLoop (fTryOnly : Bool) (old : Nat) : CritSectRw ι × RwThread :=
  if dirWrite old = false then
    casState s th old (setCntRd old (cntRd old + 1))
      (s, { th with pc := .outside, cShared := th.cShared + 1 }) (.sharedRead fTryOnly)
  else if cntRd old = 0 ∧ cntWr old = 0 then
    casState s th old (setDir (setCntRd old 1) false)
      (s, { th with pc := .outside, cShared := th.cShared + 1 }) (.sharedRead fTryOnly)
  else if s.hNativeWriter = some self then (s, { th with pc := .sharedRecurse })
  else if fTryOnly then (s, { th with pc := .outside })
  else (s, { th with pc := .sharedQueue old })

/-- The loop of `pdmCritSectRwLeaveSharedWorker`. -/
def leaveSharedLoop (old : Nat) : CritSectRw ι × RwThread :=
  if cntRd old = 0 then (s, { th with pc := .outside })
  else if 0 < cntRd old - 1 ∨ cntWr old = 0 then
    casState s th old (setCntRd old (cntRd old - 1))
      (s, { th with pc := .outside, cShared := th.cShared - 1 }) .leaveSharedReread
  else
    casState s th old (setDir (setCntRd old 0) true)
      (s, { th with pc := .leaveSharedSignal, cShared := th.cShared - 1 }) .leaveSharedReread

/-- What a writer does when it is counted, and `new` is the word. -/
def exclCounted (fTryOnly : Bool) (new : Nat) : RwPc :=
  if dirWrite new = true ∧ (cntWr new = 1 ∨ fTryOnly) then .exclGrab fTryOnly
  else if fTryOnly then .exclWithdrawRead
  else .exclWait

/-- The loop of `pdmCritSectRwEnterExcl`; its last two branches cannot be reached. -/
def exclLoop (fTryOnly : Bool) (old : Nat) : CritSectRw ι × RwThread :=
  if dirWrite old = true ∨ cntRd old ≠ 0 ∨ cntWr old ≠ 0 then
    let new := setCntWr old (cntWr old + 1)
    casState s th old new (s, { th with pc := exclCounted fTryOnly new }) (.exclRead fTryOnly)
  else
    let new := setDir (setCntWr old 1) true
    casState s th old new (s, { th with pc := exclCounted fTryOnly new }) (.exclRead fTryOnly)

/-- The loop of `pdmCritSectRwLeaveExclWorker`. -/
def leaveExclLoop (old : Nat) : CritSectRw ι × RwThread :=
  let c := dec64 (cntWr old)
  if 0 < c ∨ cntRd old = 0 then
    casState s th old (setCntWr old c)
      (s, { th with pc := if 0 < c then .leaveExclSignal else .outside }) .leaveExclRead
  else
    casState s th old (setDir (setCntWr old 0) false) (s, { th with pc := .leaveExclNeedReset })
      .leaveExclRead

/-- One access of the thread; `none` while it waits for an event. -/
def threadStep : Option (CritSectRw ι × RwThread) :=
  match th.pc with
  | .outside => none
  | .sharedRead fTryOnly => some (s, { th with pc := .sharedLoop fTryOnly s.u64State })
  | .sharedLoop fTryOnly old => some (sharedLoop self s th fTryOnly old)
  | .sharedRecurse => some ({ s with cWriterReads := inc32 s.cWriterReads },
      { th with pc := .outside, cShared := th.cShared + 1 })
  | .sharedQueue old => some (casState s th old
      (setWaitCntRd (setCntRd old (cntRd old + 1)) (waitCntRd old + 1))
      (s, { th with pc := .sharedWait }) (.sharedRead false))
  | .sharedWait => if s.hEvtRead then some (s, { th with pc := .sharedAwake }) else none
  | .sharedAwake => some (s, { th with
      pc := if dirWrite s.u64State = false then .sharedUnwait s.u64State else .sharedWait })
  | .sharedUnwait old =>
      let cWait := dec64 (waitCntRd old)
      some (casState s th old (setWaitCntRd old cWait)
        (s, if cWait = 0 then { th with pc := .sharedReset }
          else { th with pc := .outside, cShared := th.cShared + 1 }) .sharedUnwaitRead)
  | .sharedUnwaitRead => some (s, { th with pc := .sharedUnwait s.u64State })
  | .sharedReset => some ({ s with fNeedReset := false },
      if s.fNeedReset then { th with pc := .sharedResetEvent }
      else { th with pc := .outside, cShared := th.cShared + 1 })
  | .sharedResetEvent => some ({ s with hEvtRead := false },
      { th with pc := .outside, cShared := th.cShared + 1 })
  | .leaveSharedRead => some (s, { th with
      pc := if dirWrite s.u64State = false then .leaveSharedLoop s.u64State
        else .leaveSharedOwner })
  | .leaveSharedLoop old => some (leaveSharedLoop s th old)
  | .leaveSharedReread => some (s, { th with pc := .leaveSharedLoop s.u64State })
  | .leaveSharedSignal => some ({ s with hEvtWrite := true }, { th with pc := .outside })
  | .leaveSharedOwner => some (s, { th with
      pc := if s.hNativeWriter = some self then .leaveSharedReads else .outside })
  | .leaveSharedReads => some (s, { th with
      pc := if 0 < s.cWriterReads then .leaveSharedUnwind else .outside })
  | .leaveSharedUnwind => some ({ s with cWriterReads := dec32 s.cWriterReads },
      { th with pc := .outside, cShared := th.cShared - 1 })
  | .exclOwner fTryOnly => some (s, { th with
      pc := if s.hNativeWriter = some self then .exclRecurse else .exclRead fTryOnly })
  | .exclRecurse => some ({ s with cWriteRecursions := inc32 s.cWriteRecursions },
      { th with pc := .outside, cExcl := th.cExcl + 1 })
  | .exclRead fTryOnly => some (s, { th with pc := .exclLoop fTryOnly s.u64State })
  | .exclLoop fTryOnly old => some (exclLoop s th fTryOnly old)
  | .exclGrab fTryOnly =>
      some (grabHandle self s th (if fTryOnly then .exclWithdrawRead else .exclWait))
  | .exclWait =>
      if s.hEvtWrite then some ({ s with hEvtWrite := false }, { th with pc := .exclAwake })
      else none
  | .exclAwake => some (s, { th with
      pc := if dirWrite s.u64State = true then .exclGrabAwake else .exclWait })
  | .exclGrabAwake => some (grabHandle self s th .exclWait)
  | .exclWithdrawRead => some (s, { th with pc := .exclWithdraw s.u64State })
  | .exclWithdraw old => some (casState s th old (setCntWr old (dec64 (cntWr old)))
      (s, { th with pc := .outside }) .exclWithdrawRead)
  | .exclGot => some ({ s with cWriteRecursions := 1 }, { th with pc := .outside, cExcl := 1 })
  | .leaveExclOwner => some (s, { th with
      pc := if s.hNativeWriter = some self then .leaveExclRecursions else .outside })
  | .leaveExclRecursions => some (s, { th with
      pc := if s.cWriteRecursions = 1 then .leaveExclReads else .leaveExclUnwind })
  -- the thread is not inside any more once it goes for its last leave
  | .leaveExclReads => some (s,
      if s.cWriterReads = 0 then { th with pc := .leaveExclClear, cExcl := th.cExcl - 1 }
      else { th with pc := .outside })
  | .leaveExclClear => some ({ s with cWriteRecursions := 0 }, { th with pc := .leaveExclDisown })
  | .leaveExclDisown => some ({ s with hNativeWriter := none }, { th with pc := .leaveExclRead })
  | .leaveExclRead => some (s, { th with pc := .leaveExclLoop s.u64State })
  | .leaveExclLoop old => some (leaveExclLoop s th old)
  | .leaveExclSignal => some ({ s with hEvtWrite := true }, { th with pc := .outside })
  | .leaveExclNeedReset => some ({ s with fNeedReset := true }, { th with pc := .leaveExclSignalRead })
  | .leaveExclSignalRead => some ({ s with hEvtRead := true }, { th with pc := .outside })
  | .leaveExclUnwind => some ({ s with cWriteRecursions := dec32 s.cWriteRecursions },
      { th with pc := .outside, cExcl := th.cExcl - 1 })

def labelStep : RwLabel → Option (CritSectRw ι × RwThread)
  | .call op =>
      if th.pc = .outside ∧ th.MayCall op then some (s, { th with pc := op.start }) else none
  | .step => threadStep self s th
  | .spurious => if th.pc = .exclWait then some (s, { th with pc := .exclAwake }) else none

end Steps

/-- A section and its threads. -/
structure RwMachine (ι : Type) where
  sect : CritSectRw ι
  thread : ι → RwThread

def RwMachine.step (m : RwMachine ι) (self : ι) (label : RwLabel) : Option (RwMachine ι) :=
  (labelStep self m.sect (m.thread self) label).map fun (sect, th) =>
    ⟨sect, Function.update m.thread self th⟩

def RwStep (m : RwMachine ι) (a : ι × RwLabel) (m' : RwMachine ι) : Prop :=
  m.step a.1 a.2 = some m'

/-- `PDMR3CritSectRwInit`, with every thread outside. -/
def RwMachine.init (ι : Type) : RwMachine ι :=
  ⟨⟨0, none, 0, 0, false, false, false⟩, fun _ => ⟨.outside, 0, 0⟩⟩

end VBox.Vmm.Pdm
