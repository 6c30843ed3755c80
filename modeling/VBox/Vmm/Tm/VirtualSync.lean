import VBox.Vmm.Tm.Order

/-!
The virtual sync clock and its timer queue.

Timers of this queue are armed and stopped at once, without the scheduling list.
`tmR3TimerQueueRunVirtualSync` is cut where it calls a timer: `runStart` is what comes
before its loop, `runDeliver` one round of the loop, with the calls the callback makes,
and `runFinish` what comes behind. Times are 64-bit words.
-/

namespace VBox.Vmm.Tm

open VBox.Lib VBox.Lib.Links

variable {cTimers : Nat}

def add64 (a b : Nat) : Nat := (a + b) % 2 ^ 64

def sub64 (a b : Nat) : Nat := (a + (2 ^ 64 - b % 2 ^ 64)) % 2 ^ 64

/-- `ASMMultU64ByU32DivByU32` -/
def multU64ByU32DivByU32 (u64A u32B u32C : Nat) : Nat := u64A * u32B / u32C % 2 ^ 64

structure CatchUpPeriod where
  u64Start : Nat
  u32Percentage : Nat

structure VirtualSync (cTimers : Nat) where
  queue : TmTimerQueue cTimers
  u64VirtualSync : Nat
  fVirtualSyncTicking : Bool
  cVirtualTicking : Nat
  offVirtualSync : Nat
  offVirtualSyncGivenUp : Nat
  fVirtualSyncCatchUp : Bool
  u64VirtualSyncCatchUpPrev : Nat
  u32VirtualSyncCatchUpPercentage : Nat
  u32VirtualSyncScheduleSlack : Nat
  u64VirtualSyncCatchUpStopThreshold : Nat
  u64VirtualSyncCatchUpGiveUpThreshold : Nat
  /-- The first period and the others. -/
  aVirtualSyncCatchUpPeriods : CatchUpPeriod × List CatchUpPeriod
  uMaxHzHint : Nat
  fHzHintNeedsUpdating : Bool
  fVirtualWarpDrive : Bool
  u32VirtualWarpDrivePercentage : Nat
  /-- `u64Expire` of the queue of `TMCLOCK_VIRTUAL`. -/
  u64VirtualExpire : Nat
  /-- `VMCPU_FF_TIMER` -/
  fTimerFF : Bool
  /-- `VM_FF_TM_VIRTUAL_SYNC` -/
  fVirtualSyncFF : Bool

section Calls

/-- `tmTimerVirtualSyncSet` -/
def tmTimerVirtualSyncSet (vs : VirtualSync cTimers) (pTimer : Fin cTimers) (u64Expire : Nat) :
    VirtualSync cTimers × Rc :=
  match (vs.queue.timer pTimer).enmState with
  | .expiredDeliver | .stopped =>
      let pQueue := (vs.queue.setExpire pTimer u64Expire).setState pTimer .active
      ({ vs with queue := tmTimerQueueLinkActive pQueue pTimer u64Expire }, .vinfSuccess)
  | .active =>
      let pQueue := (tmTimerQueueUnlinkActive vs.queue pTimer).setExpire pTimer u64Expire
      ({ vs with queue := tmTimerQueueLinkActive pQueue pTimer u64Expire }, .vinfSuccess)
  | _ => (vs, .verrTmInvalidState)

/-- A stopped timer has no frequency hint. -/
def dropHzHint (vs : VirtualSync cTimers) (pTimer : Fin cTimers) : VirtualSync cTimers :=
  let t := vs.queue.timer pTimer
  if t.uHzHint ≠ 0 then
    { vs with
      queue := vs.queue.setTimer pTimer { t with uHzHint := 0 }
      fHzHintNeedsUpdating := if vs.uMaxHzHint ≤ t.uHzHint then true
        else vs.fHzHintNeedsUpdating }
  else vs

def tmTimerVirtualSyncStop (vs : VirtualSync cTimers) (pTimer : Fin cTimers) :
    VirtualSync cTimers × Rc :=
  let vs := dropHzHint vs pTimer
  match (vs.queue.timer pTimer).enmState with
  | .active =>
      ({ vs with queue := (tmTimerQueueUnlinkActive vs.queue pTimer).setState pTimer .stopped },
        .vinfSuccess)
  | .expiredDeliver => ({ vs with queue := vs.queue.setState pTimer .stopped }, .vinfSuccess)
  | .stopped => (vs, .vinfSuccess)
  | _ => (vs, .verrTmInvalidState)

/-- A call of a timer callback. -/
inductive VsCall (cTimers : Nat) where
  | set (pTimer : Fin cTimers) (u64Expire : Nat)
  | stop (pTimer : Fin cTimers)

def VsCall.apply (vs : VirtualSync cTimers) : VsCall cTimers → VirtualSync cTimers
  | set pTimer u64Expire => (tmTimerVirtualSyncSet vs pTimer u64Expire).1
  | stop pTimer => (tmTimerVirtualSyncStop vs pTimer).1

end Calls

section RunPass

/-- The locals of `tmR3TimerQueueRunVirtualSync` its loop uses. -/
structure RunLocals (cTimers : Nat) where
  pNext : Option (Fin cTimers)
  u64VirtualNow : Nat
  u64Now : Nat
  u64Max : Nat

/-- The offset after the catch-up since `u64VirtualSyncCatchUpPrev`, and whether it has
caught up; no step is made over a gap of 2^32 ns or more. -/
def catchUpStep (vs : VirtualSync cTimers) (u64 : Nat) : Nat × Option Bool :=
  let u64Delta := sub64 u64 vs.u64VirtualSyncCatchUpPrev
  if u64Delta / 2 ^ 32 = 0 then
    let u64Sub := multU64ByU32DivByU32 u64Delta vs.u32VirtualSyncCatchUpPercentage 100
    if add64 u64Sub vs.offVirtualSyncGivenUp < vs.offVirtualSync then
      (sub64 vs.offVirtualSync u64Sub, some false)
    else (vs.offVirtualSyncGivenUp, some true)
  else (vs.offVirtualSync, none)

/-- The offset at a raw time, and whether it has caught up where a step was made. -/
def catchUpAt (vs : VirtualSync cTimers) (u64 : Nat) : Nat × Option Bool :=
  if vs.fVirtualSyncCatchUp then catchUpStep vs u64 else (vs.offVirtualSync, none)

/-- The clock, no earlier than it last was. -/
def adjustLast (u64Last u64 : Nat) : Nat := if u64 < u64Last then add64 u64Last 1 else u64

/-- The part of `tmR3TimerQueueRunVirtualSync` before its loop, for a queue whose head is
`pNext`. -/
def runStartAt (vs : VirtualSync cTimers) (pNext : Fin cTimers) (u64VirtualNow : Nat) :
    VirtualSync cTimers × Nat :=
  if vs.fVirtualSyncTicking then
    let (off, update) := catchUpAt vs u64VirtualNow
    let u64Now := adjustLast vs.u64VirtualSync (sub64 u64VirtualNow off)
    let u64Expire := (vs.queue.timer pNext).u64Expire
    if u64Expire ≤ u64Now then
      ({ vs with u64VirtualSync := u64Expire, fVirtualSyncTicking := false }, u64Expire)
    else
      match update with
      | some fStopCatchup =>
          ({ vs with
             offVirtualSync := off
             u64VirtualSyncCatchUpPrev := u64VirtualNow
             u64VirtualSync := u64Now
             fVirtualSyncCatchUp := if fStopCatchup then false else vs.fVirtualSyncCatchUp },
            u64Now)
      | none => ({ vs with u64VirtualSync := u64Now }, u64Now)
  else (vs, vs.u64VirtualSync)

/-- A pass over an empty queue returns at once. -/
def runStart (vs : VirtualSync cTimers) (u64VirtualNow : Nat) :
    VirtualSync cTimers × Option (RunLocals cTimers) :=
  match vs.queue.links.head with
  | none => (vs, none)
  | some pNext =>
      let (vs', u64Now) := runStartAt vs pNext u64VirtualNow
      let u64End := sub64 u64VirtualNow vs.offVirtualSyncGivenUp
      let u64Max := add64 u64Now vs.u32VirtualSyncScheduleSlack
      (vs', some ⟨some pNext, u64VirtualNow, u64Now, if u64End < u64Max then u64End else u64Max⟩)

/-- The timer the loop goes on with. -/
def RunLocals.due (locals : RunLocals cTimers) (vs : VirtualSync cTimers) :
    Option (Fin cTimers) :=
  locals.pNext.filter fun pNext => (vs.queue.timer pNext).u64Expire ≤ locals.u64Max

/-- The state the callback of a delivered timer finds. -/
def unlinkExpired (vs : VirtualSync cTimers) (pTimer : Fin cTimers) : VirtualSync cTimers :=
  { vs with
    u64VirtualSync := (vs.queue.timer pTimer).u64Expire
    fVirtualSyncTicking := false
    queue := (tmTimerQueueUnlinkActive vs.queue pTimer).setState pTimer .expiredDeliver }

/-- The timer is stopped if the callback has not changed its state. -/
def afterCallback (vs : VirtualSync cTimers) (pTimer : Fin cTimers) : VirtualSync cTimers :=
  if (vs.queue.timer pTimer).enmState = .expiredDeliver then
    dropHzHint { vs with queue := vs.queue.setState pTimer .stopped } pTimer
  else vs

/-- One round of the loop; `calls` are the calls of the callback. The next timer is
remembered before it. -/
def runDeliver (vs : VirtualSync cTimers) (locals : RunLocals cTimers) (pTimer : Fin cTimers)
    (calls : List (VsCall cTimers)) : VirtualSync cTimers × RunLocals cTimers :=
  (afterCallback (calls.foldl VsCall.apply (unlinkExpired vs pTimer)) pTimer,
    { locals with pNext := vs.queue.links.next pTimer })

/-- The period of a lag: the last one that starts no later. -/
def catchUpPercentage (offLag : Nat) : CatchUpPeriod → List CatchUpPeriod → Nat
  | period, next :: periods =>
      if next.u64Start ≤ offLag then catchUpPercentage offLag next periods
      else period.u32Percentage
  | period, [] => period.u32Percentage

/-- `MAX_ELAPSED` -/
def maxElapsed : Nat := 30000

/-- The time the clock runs on for while timers are delivered. -/
def elapsedAtRestart (offSlack cNsPassed : Nat) : Nat :=
  if maxElapsed < offSlack then 0
  else
    let u64Elapsed := if maxElapsed < cNsPassed then maxElapsed else cNsPassed
    if offSlack < u64Elapsed then sub64 u64Elapsed offSlack else 0

/-- Start, adjust or stop the catch-up. -/
def restartCatchUp (vs : VirtualSync cTimers) (u64VirtualNow2 offNew offLag : Nat) :
    VirtualSync cTimers :=
  let percentage := catchUpPercentage offLag vs.aVirtualSyncCatchUpPeriods.1
    vs.aVirtualSyncCatchUpPeriods.2
  if vs.fVirtualSyncCatchUp then
    if offLag ≤ vs.u64VirtualSyncCatchUpStopThreshold then
      { vs with fVirtualSyncCatchUp := false }
    else if offLag ≤ vs.u64VirtualSyncCatchUpGiveUpThreshold then
      { vs with
        u32VirtualSyncCatchUpPercentage := max vs.u32VirtualSyncCatchUpPercentage percentage
        u64VirtualSyncCatchUpPrev := u64VirtualNow2 }
    else { vs with offVirtualSyncGivenUp := offNew, fVirtualSyncCatchUp := false }
  else if vs.aVirtualSyncCatchUpPeriods.1.u64Start ≤ offLag then
    if offLag ≤ vs.u64VirtualSyncCatchUpGiveUpThreshold then
      { vs with u32VirtualSyncCatchUpPercentage := percentage, fVirtualSyncCatchUp := true }
    else { vs with offVirtualSyncGivenUp := offNew }
  else vs

/-- The part of `tmR3TimerQueueRunVirtualSync` behind its loop: it restarts the clock. -/
def runFinish (vs : VirtualSync cTimers) (locals : RunLocals cTimers) (u64VirtualNow2 : Nat) :
    VirtualSync cTimers :=
  if !vs.fVirtualSyncTicking && vs.cVirtualTicking ≠ 0 then
    let offSlack := sub64 vs.u64VirtualSync locals.u64Now
    let u64Elapsed := elapsedAtRestart offSlack (sub64 u64VirtualNow2 locals.u64VirtualNow)
    let offNew := sub64 (sub64 u64VirtualNow2 vs.u64VirtualSync) u64Elapsed
    let offLag := sub64 offNew vs.offVirtualSyncGivenUp
    { restartCatchUp vs u64VirtualNow2 offNew offLag with
      offVirtualSync := offNew
      fVirtualSyncTicking := true }
  else vs

end RunPass

end VBox.Vmm.Tm
