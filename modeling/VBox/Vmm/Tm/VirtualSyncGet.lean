import VBox.Vmm.Tm.VirtualSync

/-!
Reading the virtual sync clock.

A read that gets the lock records the value it returns, and stops the clock at the head
timer of the queue. One that does not get it changes nothing but the force actions. A
call is atomic, so that the lockless path reads everything once and the loop that makes
it consistent ends in its first round.
-/

namespace VBox.Vmm.Tm

variable {cTimers : Nat}

def tmVirtualVirtToNsDeadline (vs : VirtualSync cTimers) (cVirtTicksToDeadline : Nat) : Nat :=
  if vs.fVirtualWarpDrive then
    multU64ByU32DivByU32 cVirtTicksToDeadline 100 vs.u32VirtualWarpDrivePercentage
  else cVirtTicksToDeadline

/-- What a read returns: the time and `*pcNsToDeadline`. -/
structure VsTime where
  u64 : Nat
  cNsToDeadline : Nat

/-- The clock is stopped at the head timer. -/
def stopAtHead (vs : VirtualSync cTimers) : VirtualSync cTimers × VsTime :=
  let u64 := vs.queue.u64Expire
  ({ vs with
     u64VirtualSync := u64
     fVirtualSyncTicking := false
     fVirtualSyncFF := true
     fTimerFF := true }, ⟨u64, 0⟩)

/-- `tmVirtualSyncGetHandleCatchUpLocked` -/
def tmVirtualSyncGetHandleCatchUpLocked (vs : VirtualSync cTimers) (u64Raw : Nat) :
    VirtualSync cTimers × VsTime :=
  let u64Delta := sub64 u64Raw vs.u64VirtualSyncCatchUpPrev
  let (off, update) := catchUpStep vs u64Raw
  let fUpdatePrev := update.isSome || u64Delta < 2 ^ 63
  let u64 := adjustLast vs.u64VirtualSync (sub64 u64Raw off)
  if u64 < vs.queue.u64Expire then
    let vs' := { vs with
      u64VirtualSync := u64
      offVirtualSync := if update.isSome then off else vs.offVirtualSync
      fVirtualSyncCatchUp := if update = some true then false else vs.fVirtualSyncCatchUp
      -- the time is stored, not the raw time the next difference is taken to
      u64VirtualSyncCatchUpPrev := if fUpdatePrev then u64 else vs.u64VirtualSyncCatchUpPrev }
    let cNsToDeadline := vs.queue.u64Expire - u64
    (vs', ⟨u64, tmVirtualVirtToNsDeadline vs' (if vs'.fVirtualSyncCatchUp then
      multU64ByU32DivByU32 cNsToDeadline 100 ((vs.u32VirtualSyncCatchUpPercentage + 100) % 2 ^ 32)
      else cNsToDeadline)⟩)
  else stopAtHead vs

def tmVirtualSyncGetLocked (vs : VirtualSync cTimers) (u64Raw : Nat) :
    VirtualSync cTimers × VsTime :=
  if vs.fVirtualSyncTicking then
    if vs.fVirtualSyncCatchUp then tmVirtualSyncGetHandleCatchUpLocked vs u64Raw
    else
      let u64 := adjustLast vs.u64VirtualSync (sub64 u64Raw vs.offVirtualSync)
      if u64 < vs.queue.u64Expire then
        ({ vs with u64VirtualSync := u64 },
          ⟨u64, tmVirtualVirtToNsDeadline vs (vs.queue.u64Expire - u64)⟩)
      else stopAtHead vs
  else (vs, ⟨vs.u64VirtualSync, 0⟩)

/-- The end of `tmVirtualSyncGetEx` on a ticking clock without the lock. -/
def getLockless (vs : VirtualSync cTimers) (u64Raw : Nat) : VirtualSync cTimers × VsTime :=
  let (off, _) := catchUpAt vs u64Raw
  let u64 := sub64 u64Raw off
  if vs.queue.u64Expire ≤ u64 then
    (if vs.fTimerFF then vs else { vs with fVirtualSyncFF := true, fTimerFF := true }, ⟨u64, 0⟩)
  else
    let cNsToDeadline := vs.queue.u64Expire - u64
    (vs, ⟨u64, tmVirtualVirtToNsDeadline vs (if vs.fVirtualSyncCatchUp then
      multU64ByU32DivByU32 cNsToDeadline 100 ((vs.u32VirtualSyncCatchUpPercentage + 100) % 2 ^ 32)
      else cNsToDeadline)⟩)

/-- `tmVirtualSyncGetEx`; `fLock` says whether it gets `VirtualSyncLock`, and `u64Raw` is
what `tmVirtualGetRaw` returns. -/
def tmVirtualSyncGetEx (vs : VirtualSync cTimers) (fCheckTimers fLock : Bool) (u64Raw : Nat) :
    VirtualSync cTimers × VsTime :=
  if vs.fVirtualSyncTicking then
    let vs := if fCheckTimers && !vs.fTimerFF && vs.u64VirtualExpire ≤ u64Raw then
      { vs with fTimerFF := true } else vs
    if fLock then tmVirtualSyncGetLocked vs u64Raw else getLockless vs u64Raw
  else (vs, ⟨vs.u64VirtualSync, 0⟩)

end VBox.Vmm.Tm
