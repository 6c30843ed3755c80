import VBox.Vmm.Tm.Queue

/-!
Arming and stopping timers from threads other than EMT, and the scheduling pass.

A call only posts what it wants: it overwrites the expire time, changes the state and
links the timer into the scheduling list. `tmTimerQueueSchedule` moves the posted
timers later, in the order the list hands them out. Calls are complete: `tmTimerTry`
fails only when the state is not the one just read.
-/

namespace VBox.Vmm.Tm

open VBox.Lib VBox.Lib.Links

variable {cTimers : Nat}

/-- The queue and the rest of TM the calls read and write; `fTimerFF` is
`VMCPU_FF_TIMER`. -/
structure TmState (cTimers : Nat) where
  queue : TmTimerQueue cTimers
  uMaxHzHint : Nat
  fHzHintNeedsUpdating : Bool
  fTimerFF : Bool

inductive Rc where
  | vinfSuccess
  | verrInvalidParameter
  | verrTmInvalidState
  | verrTmTimerUnstableState
  deriving DecidableEq, Repr

section Scheduling

def tmTimerTry (pQueue : TmTimerQueue cTimers) (pTimer : Fin cTimers)
    (enmStateNew enmStateOld : TmTimerState) : TmTimerQueue cTimers × Bool :=
  if (pQueue.timer pTimer).enmState = enmStateOld then (pQueue.setState pTimer enmStateNew, true)
  else (pQueue, false)

def tmTimerLinkSchedule (pQueue : TmTimerQueue cTimers) (pTimer : Fin cTimers) :
    TmTimerQueue cTimers :=
  { pQueue with offSchedule := pTimer :: pQueue.offSchedule }

def tmTimerTryWithLink (pQueue : TmTimerQueue cTimers) (pTimer : Fin cTimers)
    (enmStateNew enmStateOld : TmTimerState) : TmTimerQueue cTimers × Bool :=
  match tmTimerTry pQueue pTimer enmStateNew enmStateOld with
  | (pQueue, true) => (tmTimerLinkSchedule pQueue pTimer, true)
  | (pQueue, false) => (pQueue, false)

/-- `case TMTIMERSTATE_PENDING_SCHEDULE`; the flag says whether the function returns. -/
def scheduleInsert (pQueue : TmTimerQueue cTimers) (pTimer : Fin cTimers) :
    TmTimerQueue cTimers × Bool :=
  match tmTimerTry pQueue pTimer .active .pendingSchedule with
  | (pQueue, true) =>
      (tmTimerQueueLinkActive pQueue pTimer (pQueue.timer pTimer).u64Expire, true)
  | (pQueue, false) => (pQueue, false)

/-- `case TMTIMERSTATE_PENDING_STOP_SCHEDULE` -/
def scheduleStop (pQueue : TmTimerQueue cTimers) (pTimer : Fin cTimers) :
    TmTimerQueue cTimers × Bool :=
  tmTimerTry pQueue pTimer .stopped .pendingStopSchedule

/-- One round of `tmTimerQueueScheduleOne`. -/
def scheduleRound (pQueue : TmTimerQueue cTimers) (pTimer : Fin cTimers) :
    TmTimerQueue cTimers × Bool :=
  match (pQueue.timer pTimer).enmState with
  | .pendingReschedule =>
      match tmTimerTry pQueue pTimer .pendingSchedule .pendingReschedule with
      | (pQueue, true) => scheduleInsert (tmTimerQueueUnlinkActive pQueue pTimer) pTimer
      | (pQueue, false) => (pQueue, false)
  | .pendingSchedule => scheduleInsert pQueue pTimer
  | .pendingStop =>
      match tmTimerTry pQueue pTimer .pendingStopSchedule .pendingStop with
      | (pQueue, true) => scheduleStop (tmTimerQueueUnlinkActive pQueue pTimer) pTimer
      | (pQueue, false) => (pQueue, false)
  | .pendingStopSchedule => scheduleStop pQueue pTimer
  | .destroy => (pQueue, false)
  | .pendingRescheduleSetExpire | .pendingScheduleSetExpire =>
      (tmTimerLinkSchedule pQueue pTimer, true)
  | .free | .stopped | .active | .expiredGetUnlink | .expiredDeliver => (pQueue, true)

def scheduleRounds (pTimer : Fin cTimers) : Nat → TmTimerQueue cTimers → TmTimerQueue cTimers
  | 0, pQueue => pQueue
  | cRetries + 1, pQueue =>
      match scheduleRound pQueue pTimer with
      | (pQueue, true) => pQueue
      | (pQueue, false) => scheduleRounds pTimer cRetries pQueue

/-- `cRetries` starts at 2, and the loop tests it behind its body. -/
def tmTimerQueueScheduleOne (pQueue : TmTimerQueue cTimers) (pTimer : Fin cTimers) :
    TmTimerQueue cTimers :=
  scheduleRounds pTimer 3 pQueue

def tmTimerQueueSchedule (pQueue : TmTimerQueue cTimers) : TmTimerQueue cTimers :=
  pQueue.offSchedule.foldl tmTimerQueueScheduleOne { pQueue with offSchedule := [] }

end Scheduling

section Calls

/-- `tmSchedule` on a thread that is not an EMT: it raises the force action. -/
def tmSchedule (tm : TmState cTimers) (pTimer : Fin cTimers) : TmState cTimers :=
  if (tm.queue.timer pTimer).enmState.isPendingScheduling then { tm with fTimerFF := true } else tm

/-- Rounds of a call until one returns; a round that does not leaves everything as it
was. -/
def retry (round : TmState cTimers → Option (TmState cTimers × Rc)) : Nat → TmState cTimers → TmState cTimers × Rc
  | 0, tm => (tm, .verrTmTimerUnstableState)
  | cRetries + 1, tm =>
      match round tm with
      | some result => result
      | none => retry round cRetries tm

/-- The end of a round that has taken the timer to a `SET_EXPIRE` state. -/
def setExpireAndSchedule (tm : TmState cTimers) (pTimer : Fin cTimers) (u64Expire : Nat)
    (enmState : TmTimerState) : TmTimerQueue cTimers × Bool → Option (TmState cTimers × Rc)
  | (pQueue, true) =>
      let pQueue := (pQueue.setExpire pTimer u64Expire).setState pTimer enmState
      some (tmSchedule { tm with queue := pQueue } pTimer, .vinfSuccess)
  | (_, false) => none

/-- One round of the unoptimized path of `TMTimerSet`. -/
def tmTimerSetRound (pTimer : Fin cTimers) (u64Expire : Nat) (tm : TmState cTimers) :
    Option (TmState cTimers × Rc) :=
  let enmState := (tm.queue.timer pTimer).enmState
  match enmState with
  | .expiredDeliver | .stopped =>
      setExpireAndSchedule tm pTimer u64Expire .pendingSchedule
        (tmTimerTryWithLink tm.queue pTimer .pendingScheduleSetExpire enmState)
  | .pendingSchedule | .pendingStopSchedule =>
      setExpireAndSchedule tm pTimer u64Expire .pendingSchedule
        (tmTimerTry tm.queue pTimer .pendingScheduleSetExpire enmState)
  | .active =>
      setExpireAndSchedule tm pTimer u64Expire .pendingReschedule
        (tmTimerTryWithLink tm.queue pTimer .pendingRescheduleSetExpire enmState)
  | .pendingReschedule | .pendingStop =>
      setExpireAndSchedule tm pTimer u64Expire .pendingReschedule
        (tmTimerTry tm.queue pTimer .pendingRescheduleSetExpire enmState)
  | .expiredGetUnlink | .pendingScheduleSetExpire | .pendingRescheduleSetExpire => none
  | .destroy | .free => some (tm, .verrTmInvalidState)

/-- `tmTimerSetOptimizedStart`, for a clock other than the virtual sync clock. -/
def tmTimerSetOptimizedStart (pQueue : TmTimerQueue cTimers) (pTimer : Fin cTimers)
    (u64Expire : Nat) : TmTimerQueue cTimers :=
  tmTimerQueueLinkActive (pQueue.setExpire pTimer u64Expire) pTimer u64Expire

/-- The states in which `TMTimerSet` tries the TM lock. -/
def startsInactive (t : TmTimer) : Bool :=
  t.enmState = .expiredDeliver || (t.enmState = .stopped && t.pCritSect)

/-- `TMTimerSet`; `fLock` says whether `TM_TRY_LOCK_TIMERS` gets the lock. -/
def tmTimerSet (fLock : Bool) (tm : TmState cTimers) (pTimer : Fin cTimers) (u64Expire : Nat) :
    TmState cTimers × Rc :=
  if startsInactive (tm.queue.timer pTimer) && fLock then
    match tmTimerTry tm.queue pTimer .active (tm.queue.timer pTimer).enmState with
    | (pQueue, true) =>
        ({ tm with queue := tmTimerSetOptimizedStart pQueue pTimer u64Expire }, .vinfSuccess)
    | (_, false) => retry (tmTimerSetRound pTimer u64Expire) 1001 tm
  else retry (tmTimerSetRound pTimer u64Expire) 1001 tm

/-- `TMTimerStop` drops the timer's frequency hint first. -/
def resetHzHint (tm : TmState cTimers) (pTimer : Fin cTimers) : TmState cTimers :=
  let t := tm.queue.timer pTimer
  if t.uHzHint ≠ 0 then
    { tm with
      queue := tm.queue.setTimer pTimer { t with uHzHint := 0 }
      fHzHintNeedsUpdating := if tm.uMaxHzHint ≤ t.uHzHint then true
        else tm.fHzHintNeedsUpdating }
  else tm

def stopAndSchedule (tm : TmState cTimers) (pTimer : Fin cTimers) :
    TmTimerQueue cTimers × Bool → Option (TmState cTimers × Rc)
  | (pQueue, true) => some (tmSchedule { tm with queue := pQueue } pTimer, .vinfSuccess)
  | (_, false) => none

/-- One round of `TMTimerStop`. -/
def tmTimerStopRound (pTimer : Fin cTimers) (tm : TmState cTimers) : Option (TmState cTimers × Rc) :=
  let enmState := (tm.queue.timer pTimer).enmState
  match enmState with
  | .expiredDeliver => some (tm, .verrInvalidParameter)
  | .stopped | .pendingStop | .pendingStopSchedule => some (tm, .vinfSuccess)
  | .pendingSchedule =>
      match stopAndSchedule tm pTimer
          (tmTimerTry tm.queue pTimer .pendingStopSchedule enmState) with
      | some result => some result
      -- there is no break here
      | none => stopAndSchedule tm pTimer (tmTimerTry tm.queue pTimer .pendingStop enmState)
  | .pendingReschedule =>
      stopAndSchedule tm pTimer (tmTimerTry tm.queue pTimer .pendingStop enmState)
  | .active =>
      stopAndSchedule tm pTimer (tmTimerTryWithLink tm.queue pTimer .pendingStop enmState)
  | .expiredGetUnlink | .pendingScheduleSetExpire | .pendingRescheduleSetExpire => none
  | .destroy | .free => some (tm, .verrTmInvalidState)

def tmTimerStop (tm : TmState cTimers) (pTimer : Fin cTimers) : TmState cTimers × Rc :=
  retry (tmTimerStopRound pTimer) 1001 (resetHzHint tm pTimer)

end Calls

section Effects

variable {tm : TmState cTimers} {pQueue : TmTimerQueue cTimers} {pTimer : Fin cTimers}
  {u64Expire : Nat}

@[simp] theorem tmSchedule_queue : (tmSchedule tm pTimer).queue = tm.queue := by
  rw [tmSchedule]
  split <;> rfl

variable {t : TmTimer}

@[simp] theorem setTimer_self : (pQueue.setTimer pTimer t).timer pTimer = t :=
  Function.update_self ..

theorem setTimer_of_ne {a : Fin cTimers} (other : a ≠ pTimer) :
    (pQueue.setTimer pTimer t).timer a = pQueue.timer a :=
  Function.update_of_ne other ..

@[simp] theorem setTimer_setTimer {t' : TmTimer} :
    (pQueue.setTimer pTimer t).setTimer pTimer t' = pQueue.setTimer pTimer t' := by
  simp [TmTimerQueue.setTimer]

/-- A timer posted for the next pass, with its new contents. -/
def posted (pQueue : TmTimerQueue cTimers) (pTimer : Fin cTimers) (t : TmTimer) :
    TmTimerQueue cTimers :=
  let pQueue' := pQueue.setTimer pTimer t
  if (pQueue.timer pTimer).enmState.isScheduled then pQueue'
  else tmTimerLinkSchedule pQueue' pTimer

/-- Posting keeps the timer on the lists it is on, and makes it wait for a pass. -/
structure Posts (old new : TmTimerState) : Prop where
  linked : new.isLinked = old.isLinked
  scheduled : new.isScheduled
  notActive : new ≠ .active

variable {old new wait : TmTimerState}

section

variable (state : (tm.queue.timer pTimer).enmState = old)

include state

theorem setExpireAndSchedule_try (scheduled : old.isScheduled) :
    ∃ tm', setExpireAndSchedule tm pTimer u64Expire new (tmTimerTry tm.queue pTimer wait old) =
        some (tm', .vinfSuccess) ∧ tm'.queue = posted tm.queue pTimer
        { tm.queue.timer pTimer with enmState := new, u64Expire := u64Expire } := by
  rw [tmTimerTry, if_pos state, setExpireAndSchedule]
  refine ⟨_, rfl, ?_⟩
  rw [tmSchedule_queue, posted, state, if_pos scheduled]
  simp [TmTimerQueue.setState, TmTimerQueue.setExpire]

theorem setExpireAndSchedule_tryWithLink (scheduled : ¬ old.isScheduled) :
    ∃ tm', setExpireAndSchedule tm pTimer u64Expire new
        (tmTimerTryWithLink tm.queue pTimer wait old) = some (tm', .vinfSuccess) ∧
      tm'.queue = posted tm.queue pTimer
        { tm.queue.timer pTimer with enmState := new, u64Expire := u64Expire } := by
  rw [tmTimerTryWithLink, tmTimerTry, if_pos state, setExpireAndSchedule]
  refine ⟨_, rfl, ?_⟩
  rw [tmSchedule_queue, posted, state, if_neg scheduled]
  simp [TmTimerQueue.setState, TmTimerQueue.setExpire, tmTimerLinkSchedule, TmTimerQueue.setTimer]

theorem stopAndSchedule_try (scheduled : old.isScheduled) :
    ∃ tm', stopAndSchedule tm pTimer (tmTimerTry tm.queue pTimer new old) =
        some (tm', .vinfSuccess) ∧
      tm'.queue = posted tm.queue pTimer { tm.queue.timer pTimer with enmState := new } := by
  rw [tmTimerTry, if_pos state, stopAndSchedule]
  refine ⟨_, rfl, ?_⟩
  rw [tmSchedule_queue, posted, state, if_pos scheduled]
  rfl

theorem stopAndSchedule_tryWithLink (scheduled : ¬ old.isScheduled) :
    ∃ tm', stopAndSchedule tm pTimer (tmTimerTryWithLink tm.queue pTimer new old) =
        some (tm', .vinfSuccess) ∧
      tm'.queue = posted tm.queue pTimer { tm.queue.timer pTimer with enmState := new } := by
  rw [tmTimerTryWithLink, tmTimerTry, if_pos state, stopAndSchedule]
  refine ⟨_, rfl, ?_⟩
  rw [tmSchedule_queue, posted, state, if_neg scheduled]
  rfl

end

/-- A call whose first round returns, or whose rounds all find the same. -/
theorem retry_queue {round : TmState cTimers → Option (TmState cTimers × Rc)} (cRetries : Nat)
    (effect : TmTimerQueue cTimers → Prop) (nothing : effect tm.queue)
    (returns : ∀ result, round tm = some result → effect result.1.queue) :
    effect (retry round cRetries tm).1.queue := by
  induction cRetries with
  | zero => exact nothing
  | succ cRetries ih =>
    rw [retry]
    cases found : round tm with
    | none => exact ih
    | some result => exact returns result found

/-- The queue is left as it is, or the timer is posted with a new expire time. -/
def PostsOnly (pQueue : TmTimerQueue cTimers) (pTimer : Fin cTimers) (u64Expire : Nat)
    (pQueue' : TmTimerQueue cTimers) : Prop :=
  pQueue' = pQueue ∨
    ∃ new, Posts (pQueue.timer pTimer).enmState new ∧
      pQueue' = posted pQueue pTimer
        { pQueue.timer pTimer with enmState := new, u64Expire := u64Expire }

theorem tmTimerSetRound_posts {result : TmState cTimers × Rc}
    (returns : tmTimerSetRound pTimer u64Expire tm = some result) :
    PostsOnly tm.queue pTimer u64Expire result.1.queue := by
  rw [tmTimerSetRound] at returns
  have arms : ∀ old new : TmTimerState, (tm.queue.timer pTimer).enmState = old → Posts old new →
      (∃ tm', some result = some (tm', Rc.vinfSuccess) ∧
        tm'.queue = posted tm.queue pTimer
          { tm.queue.timer pTimer with enmState := new, u64Expire := u64Expire }) →
      PostsOnly tm.queue pTimer u64Expire result.1.queue := by
    rintro old new state posts ⟨tm', same, queue⟩
    cases same
    exact .inr ⟨new, state ▸ posts, queue⟩
  cases state : (tm.queue.timer pTimer).enmState <;> rw [state] at returns <;> dsimp only at returns
  case stopped | expiredDeliver =>
    exact arms _ .pendingSchedule state ⟨rfl, rfl, by decide⟩
      (returns ▸ setExpireAndSchedule_tryWithLink state (by decide))
  case active =>
    exact arms _ .pendingReschedule state ⟨rfl, rfl, by decide⟩
      (returns ▸ setExpireAndSchedule_tryWithLink state (by decide))
  case pendingStopSchedule | pendingSchedule =>
    exact arms _ .pendingSchedule state ⟨rfl, rfl, by decide⟩
      (returns ▸ setExpireAndSchedule_try state rfl)
  case pendingStop | pendingReschedule =>
    exact arms _ .pendingReschedule state ⟨rfl, rfl, by decide⟩
      (returns ▸ setExpireAndSchedule_try state rfl)
  case destroy | free =>
    cases returns
    exact .inl rfl
  all_goals cases returns

/-- What `TMTimerSet` does to the queue: it starts the timer at once, or only posts it. -/
theorem tmTimerSet_cases (fLock : Bool) :
    ((startsInactive (tm.queue.timer pTimer) && fLock) = true ∧
        (tmTimerSet fLock tm pTimer u64Expire).1.queue =
          tmTimerSetOptimizedStart (tm.queue.setState pTimer .active) pTimer u64Expire) ∨
      PostsOnly tm.queue pTimer u64Expire (tmTimerSet fLock tm pTimer u64Expire).1.queue := by
  rw [tmTimerSet]
  split
  case isTrue starts =>
    left
    rw [tmTimerTry, if_pos rfl]
    exact ⟨starts, rfl⟩
  case isFalse =>
    right
    exact retry_queue 1001 (PostsOnly tm.queue pTimer u64Expire) (.inl rfl) fun _ =>
      tmTimerSetRound_posts

theorem tmTimerStopRound_posts {result : TmState cTimers × Rc}
    (returns : tmTimerStopRound pTimer tm = some result) :
    PostsOnly tm.queue pTimer (tm.queue.timer pTimer).u64Expire result.1.queue := by
  rw [tmTimerStopRound] at returns
  have stops : ∀ old new : TmTimerState, (tm.queue.timer pTimer).enmState = old → Posts old new →
      (∃ tm', some result = some (tm', Rc.vinfSuccess) ∧
        tm'.queue = posted tm.queue pTimer { tm.queue.timer pTimer with enmState := new }) →
      PostsOnly tm.queue pTimer (tm.queue.timer pTimer).u64Expire result.1.queue := by
    rintro old new state posts ⟨tm', same, queue⟩
    cases same
    exact .inr ⟨new, state ▸ posts, queue⟩
  cases state : (tm.queue.timer pTimer).enmState <;> rw [state] at returns <;> dsimp only at returns
  case pendingSchedule =>
    obtain ⟨tm', ends, queue⟩ := stopAndSchedule_try state rfl
    rw [ends] at returns
    exact stops _ .pendingStopSchedule state ⟨rfl, rfl, by decide⟩ ⟨tm', returns.symm, queue⟩
  case pendingReschedule =>
    exact stops _ .pendingStop state ⟨rfl, rfl, by decide⟩ (returns ▸ stopAndSchedule_try state rfl)
  case active =>
    exact stops _ .pendingStop state ⟨rfl, rfl, by decide⟩
      (returns ▸ stopAndSchedule_tryWithLink state (by decide))
  case stopped | pendingStop | pendingStopSchedule | expiredDeliver | destroy | free =>
    cases returns
    exact .inl rfl
  all_goals cases returns

/-- `TMTimerStop` only posts. -/
theorem tmTimerStop_posts : PostsOnly (resetHzHint tm pTimer).queue pTimer
      ((resetHzHint tm pTimer).queue.timer pTimer).u64Expire (tmTimerStop tm pTimer).1.queue :=
  retry_queue 1001 (PostsOnly _ pTimer _) (.inl rfl) fun _ => tmTimerStopRound_posts

end Effects

end VBox.Vmm.Tm
