import VBox.Vmm.Tm.OrderRuns

/-!
Destroying a timer.

`TMR3TimerDestroy` takes a timer off the active list by its own links, in every state in
which it may have been armed once. In `PENDING_STOP_SCHEDULE` it is not on the list any
more, and the unlinking loses the whole list. `tmR3TimerDestroy_ok_iff` says when the
function is right nevertheless.
-/

namespace VBox.Vmm.Tm

open VBox.Lib VBox.Lib.Links List Function

variable {cTimers cOthers : Nat}

/-- A timer of the queue at hand, or of another clock. -/
inductive AnyTimer (cTimers cOthers : Nat) where
  | own (pTimer : Fin cTimers)
  | other (pTimer : Fin cOthers)
  deriving DecidableEq

/-- The queue of the timer's clock, and the created and free timers of all clocks. The
free list, linked by `pBigNext`, is a list. -/
structure TmTimers (cTimers cOthers : Nat) where
  queue : TmTimerQueue cTimers
  pCreated : Links (AnyTimer cTimers cOthers)
  pFree : List (AnyTimer cTimers cOthers)

inductive DestroyRc where
  | vinfSuccess
  | verrTmUnstableState
  | verrTmInvalidState
  deriving DecidableEq, Repr

/-- The queue without the timer, which is in the state `DESTROY`. -/
def destroyInQueue (pQueue : TmTimerQueue cTimers) (pTimer : Fin cTimers)
    (fActive fPending : Bool) : TmTimerQueue cTimers :=
  let pQueue := pQueue.setState pTimer .destroy
  let pQueue := if fActive then tmTimerQueueUnlinkActive pQueue pTimer else pQueue
  if fPending then tmTimerQueueSchedule pQueue else pQueue

def destroyTimer (tm : TmTimers cTimers cOthers) (pTimer : Fin cTimers)
    (fActive fPending : Bool) : TmTimers cTimers cOthers where
  queue := (destroyInQueue tm.queue pTimer fActive fPending).setState pTimer .free
  pCreated := tm.pCreated.unlink (.own pTimer)
  pFree := .own pTimer :: tm.pFree

/-- `TMR3TimerDestroy` with nothing else going on. It finds an unstable state again at every
retry. -/
def tmR3TimerDestroy (tm : TmTimers cTimers cOthers) (pTimer : Fin cTimers) :
    TmTimers cTimers cOthers × DestroyRc :=
  match (tm.queue.timer pTimer).enmState with
  | .stopped | .expiredDeliver => (destroyTimer tm pTimer false false, .vinfSuccess)
  | .active => (destroyTimer tm pTimer true false, .vinfSuccess)
  | .pendingStop | .pendingStopSchedule | .pendingReschedule =>
      (destroyTimer tm pTimer true true, .vinfSuccess)
  | .pendingSchedule => (destroyTimer tm pTimer false true, .vinfSuccess)
  | .expiredGetUnlink | .pendingScheduleSetExpire | .pendingRescheduleSetExpire =>
      (tm, .verrTmUnstableState)
  | .free | .destroy => (tm, .verrTmInvalidState)

/-! ### The lists -/

/-- The active list is `l`. The order on it does not matter here. -/
structure ActiveOk (pQueue : TmTimerQueue cTimers) (l : List (Fin cTimers)) : Prop where
  list : Represents pQueue.links l
  linked : ∀ a, a ∈ l ↔ (pQueue.timer a).enmState.isLinked
  head : HeadExpire pQueue l

/-- What the sanity checks look at, and the expire time of the queue. -/
structure TimersOk (tm : TmTimers cTimers cOthers) (l : List (Fin cTimers))
    (created : List (AnyTimer cTimers cOthers)) : Prop where
  active : ActiveOk tm.queue l
  scheduled : ∀ a, a ∈ tm.queue.offSchedule ↔ (tm.queue.timer a).enmState.isScheduled
  once : tm.queue.offSchedule.Nodup
  alive : ∀ a, (tm.queue.timer a).enmState ≠ .destroy
  createdList : Represents tm.pCreated created
  free : tm.pFree.Nodup
  apart : ∀ x ∈ created, x ∉ tm.pFree
  isCreated : ∀ a, .own a ∈ created ↔ (tm.queue.timer a).enmState ≠ .free
  isFree : ∀ a, .own a ∈ tm.pFree ↔ (tm.queue.timer a).enmState = .free

/-- The state a pass takes a timer to. -/
def TmTimerState.settled : TmTimerState → TmTimerState
  | pendingSchedule | pendingReschedule => active
  | pendingStop | pendingStopSchedule => stopped
  | enmState => enmState

section Active

variable {pQueue : TmTimerQueue cTimers} {pTimer : Fin cTimers}
  {l waiting xs ys : List (Fin cTimers)} {t : TmTimer}

theorem ActiveOk.set (ok : ActiveOk pQueue l)
    (linked : t.enmState.isLinked = (pQueue.timer pTimer).enmState.isLinked)
    (notActive : t.enmState ≠ .active) : ActiveOk (pQueue.setTimer pTimer t) l where
  list := ok.list
  linked := fun a => by
    by_cases same : a = pTimer
    · rw [same, setTimer_self, linked]
      exact ok.linked pTimer
    · rw [setTimer_of_ne same]
      exact ok.linked a
  head := by
    have head := ok.head
    cases l with
    | nil => exact head
    | cons a l =>
      intro armed
      by_cases same : a = pTimer
      · rw [TmTimerQueue.Armed, same, setTimer_self] at armed
        exact absurd armed notActive
      · rw [TmTimerQueue.Armed, setTimer_of_ne same] at armed
        rw [setTimer_of_ne same]
        exact head armed

theorem ActiveOk.takeOff (ok : ActiveOk pQueue (xs ++ pTimer :: ys))
    (linked : t.enmState.isLinked = false) :
    ActiveOk (tmTimerQueueUnlinkActive (pQueue.setTimer pTimer t) pTimer) (xs ++ ys) where
  list := by
    have list : Represents (pQueue.setTimer pTimer t).links (xs ++ pTimer :: ys) := ok.list
    exact (tmTimerQueueUnlinkActive_represents list).1
  linked := fun a => by
    have nodup := ok.list.nodup
    rw [nodup_middle, nodup_cons] at nodup
    show a ∈ xs ++ ys ↔ ((pQueue.setTimer pTimer t).timer a).enmState.isLinked
    by_cases same : a = pTimer
    · rw [same, setTimer_self, linked]
      simp [nodup.1]
    · rw [setTimer_of_ne same, ← ok.linked a]
      simp [same]
  head := ok.head.unlink ok.list t

theorem ActiveOk.insert (ok : ActiveOk pQueue l)
    (unlinked : ¬ (pQueue.timer pTimer).enmState.isLinked) (state : t.enmState = .active) :
    ∃ l', ActiveOk (tmTimerQueueLinkActive (pQueue.setTimer pTimer t) pTimer t.u64Expire) l' := by
  have fresh : pTimer ∉ l := fun member => unlinked ((ok.linked pTimer).mp member)
  have list : Represents (pQueue.setTimer pTimer t).links l := ok.list
  refine ⟨_, (tmTimerQueueLinkActive_represents t.u64Expire list fresh).1, fun a => ?_,
    ok.head.link ok.list fresh t⟩
  rw [mem_placed, tmTimerQueueLinkActive_timer]
  by_cases same : a = pTimer
  · rw [same, setTimer_self, state]
    simp [TmTimerState.isLinked]
  · rw [setTimer_of_ne same, ← ok.linked a]
    simp [same]

/-- A timer that is to be destroyed is passed over. -/
theorem scheduleOne_destroy (state : (pQueue.timer pTimer).enmState = .destroy) :
    tmTimerQueueScheduleOne pQueue pTimer = pQueue := by
  have round : scheduleRound pQueue pTimer = (pQueue, false) := by rw [scheduleRound, state]
  simp only [tmTimerQueueScheduleOne, scheduleRounds, round]

/-- The part of the state scheduling one timer leaves alone, and its new state. -/
theorem scheduleOne_states (waits : (pQueue.timer pTimer).enmState.isScheduled ∨
      (pQueue.timer pTimer).enmState = .destroy) :
    (tmTimerQueueScheduleOne pQueue pTimer).offSchedule = pQueue.offSchedule ∧
      (((tmTimerQueueScheduleOne pQueue pTimer).timer pTimer).enmState =
        (pQueue.timer pTimer).enmState.settled ∧
      ∀ a, a ≠ pTimer → (tmTimerQueueScheduleOne pQueue pTimer).timer a = pQueue.timer a) := by
  have inserted : ∀ {pQueue : TmTimerQueue cTimers},
      (pQueue.timer pTimer).enmState = .pendingSchedule →
      (scheduleInsert pQueue pTimer).1.offSchedule = pQueue.offSchedule ∧
        (((scheduleInsert pQueue pTimer).1.timer pTimer).enmState = .active ∧
        ∀ a, a ≠ pTimer → (scheduleInsert pQueue pTimer).1.timer a = pQueue.timer a) := by
    intro pQueue state
    rw [scheduleInsert_eq state]
    dsimp only
    rw [tmTimerQueueLinkActive_offSchedule, tmTimerQueueLinkActive_timer, setTimer_self]
    exact ⟨rfl, rfl, fun a other => setTimer_of_ne other⟩
  have stopped : ∀ {pQueue : TmTimerQueue cTimers},
      (pQueue.timer pTimer).enmState = .pendingStopSchedule →
      (scheduleStop pQueue pTimer).1.offSchedule = pQueue.offSchedule ∧
        (((scheduleStop pQueue pTimer).1.timer pTimer).enmState = .stopped ∧
        ∀ a, a ≠ pTimer → (scheduleStop pQueue pTimer).1.timer a = pQueue.timer a) := by
    intro pQueue state
    rw [scheduleStop_eq state]
    dsimp only
    rw [setTimer_self]
    exact ⟨rfl, rfl, fun a other => setTimer_of_ne other⟩
  cases state : (pQueue.timer pTimer).enmState <;> rw [state] at waits
  case pendingSchedule =>
    rw [scheduleOne_pendingSchedule state]
    exact inserted state
  case pendingStopSchedule =>
    rw [scheduleOne_pendingStopSchedule state]
    exact stopped state
  case pendingReschedule =>
    rw [scheduleOne_pendingReschedule state]
    obtain ⟨offSchedule, new, others⟩ := inserted takenOff_state
    exact ⟨offSchedule, new, fun a other => (others a other).trans (setTimer_of_ne other)⟩
  case pendingStop =>
    rw [scheduleOne_pendingStop state]
    obtain ⟨offSchedule, new, others⟩ := stopped takenOff_state
    exact ⟨offSchedule, new, fun a other => (others a other).trans (setTimer_of_ne other)⟩
  case destroy =>
    rw [scheduleOne_destroy state]
    exact ⟨rfl, state, fun _ _ => rfl⟩
  all_goals exact absurd waits (by decide)

theorem ActiveOk.scheduleOne (ok : ActiveOk pQueue l)
    (waits : (pQueue.timer pTimer).enmState.isScheduled ∨
      (pQueue.timer pTimer).enmState = .destroy) :
    ∃ l', ActiveOk (tmTimerQueueScheduleOne pQueue pTimer) l' := by
  have inserted : ∀ {pQueue : TmTimerQueue cTimers} {l : List (Fin cTimers)},
      ActiveOk pQueue l → (pQueue.timer pTimer).enmState = .pendingSchedule →
      ∃ l', ActiveOk (scheduleInsert pQueue pTimer).1 l' := by
    intro pQueue l ok state
    rw [scheduleInsert_eq state]
    exact ok.insert (by rw [state]; exact nofun) rfl
  have stopped : ∀ {pQueue : TmTimerQueue cTimers} {l : List (Fin cTimers)},
      ActiveOk pQueue l → (pQueue.timer pTimer).enmState = .pendingStopSchedule →
      ActiveOk (scheduleStop pQueue pTimer).1 l := by
    intro pQueue l ok state
    rw [scheduleStop_eq state]
    exact ok.set (by rw [state]; rfl) nofun
  have taken : ∀ enmState : TmTimerState, enmState.isLinked = false →
      (pQueue.timer pTimer).enmState.isLinked →
      ∃ l', ActiveOk (takenOff pQueue pTimer enmState) l' := by
    intro enmState unlinked linked
    obtain ⟨xs, ys, rfl⟩ := append_of_mem ((ok.linked pTimer).mpr linked)
    exact ⟨_, ok.takeOff unlinked⟩
  cases state : (pQueue.timer pTimer).enmState <;> rw [state] at waits
  case pendingSchedule =>
    rw [scheduleOne_pendingSchedule state]
    exact inserted ok state
  case pendingStopSchedule =>
    rw [scheduleOne_pendingStopSchedule state]
    exact ⟨l, stopped ok state⟩
  case pendingReschedule =>
    obtain ⟨l', off⟩ := taken .pendingSchedule rfl (by rw [state]; rfl)
    rw [scheduleOne_pendingReschedule state]
    exact inserted off takenOff_state
  case pendingStop =>
    obtain ⟨l', off⟩ := taken .pendingStopSchedule rfl (by rw [state]; rfl)
    rw [scheduleOne_pendingStop state]
    exact ⟨l', stopped off takenOff_state⟩
  case destroy =>
    rw [scheduleOne_destroy state]
    exact ⟨l, ok⟩
  all_goals exact absurd waits (by decide)

/-- A batch in which timers that are destroyed may be. -/
theorem batch_states (pQueue : TmTimerQueue cTimers)
    (waits : ∀ a ∈ waiting, (pQueue.timer a).enmState.isScheduled ∨
      (pQueue.timer a).enmState = .destroy) (once : waiting.Nodup) :
    (waiting.foldl tmTimerQueueScheduleOne pQueue).offSchedule = pQueue.offSchedule ∧
      (∀ a ∈ waiting, ((waiting.foldl tmTimerQueueScheduleOne pQueue).timer a).enmState =
        (pQueue.timer a).enmState.settled) ∧ ∀ a, a ∉ waiting →
        (waiting.foldl tmTimerQueueScheduleOne pQueue).timer a = pQueue.timer a := by
  induction waiting generalizing pQueue with
  | nil => exact ⟨rfl, nofun, fun _ _ => rfl⟩
  | cons t waiting ih =>
    obtain ⟨notWaiting, once⟩ := nodup_cons.mp once
    obtain ⟨offSchedule, new, others⟩ := scheduleOne_states (waits t (mem_cons_self ..))
    have other : ∀ a ∈ waiting, a ≠ t := fun a member same => notWaiting (same ▸ member)
    obtain ⟨offSchedule', settles, stays⟩ := ih _ (fun a member => by
      rw [others a (other a member)]
      exact waits a (mem_cons_of_mem t member)) once
    refine ⟨offSchedule'.trans offSchedule, fun a member => ?_, fun a absent => ?_⟩
    · rcases mem_cons.mp member with rfl | member
      · rw [foldl_cons, stays a notWaiting, new]
      · rw [foldl_cons, settles a member, others a (other a member)]
    · rw [mem_cons, not_or] at absent
      rw [foldl_cons, stays a absent.2, others a absent.1]

theorem ActiveOk.batch (ok : ActiveOk pQueue l)
    (waits : ∀ a ∈ waiting, (pQueue.timer a).enmState.isScheduled ∨
      (pQueue.timer a).enmState = .destroy) (once : waiting.Nodup) :
    ∃ l', ActiveOk (waiting.foldl tmTimerQueueScheduleOne pQueue) l' := by
  induction waiting generalizing pQueue l with
  | nil => exact ⟨l, ok⟩
  | cons t waiting ih =>
    obtain ⟨notWaiting, once⟩ := nodup_cons.mp once
    have waitsT := waits t (mem_cons_self ..)
    obtain ⟨l', ok'⟩ := ok.scheduleOne waitsT
    refine ih ok' (fun a member => ?_) once
    rw [(scheduleOne_states waitsT).2.2 a fun same => notWaiting (same ▸ member)]
    exact waits a (mem_cons_of_mem t member)

end Active

section Destroying

variable {pQueue : TmTimerQueue cTimers} {tm tm' : TmTimers cTimers cOthers}
  {pTimer : Fin cTimers} {l : List (Fin cTimers)}
  {created : List (AnyTimer cTimers cOthers)} {fActive fPending : Bool}

theorem settled_notScheduled (enmState : TmTimerState) : enmState.settled.isScheduled = false := by
  cases enmState <;> rfl

variable {enmState : TmTimerState}

theorem settled_of_notScheduled (idle : ¬ enmState.isScheduled) : enmState.settled = enmState := by
  cases enmState <;> first | rfl | exact absurd rfl idle

/-- What a successful call leaves behind: the timer is on the free list and on no other, and
the others are where they were, but for the batch that was run. -/
structure Destroyed (tm tm' : TmTimers cTimers cOthers) (pTimer : Fin cTimers)
    (l : List (Fin cTimers)) (created : List (AnyTimer cTimers cOthers)) : Prop where
  lists : ∃ l', TimersOk tm' l' (created.erase (.own pTimer)) ∧ pTimer ∉ l' ∧
    ∀ a ∈ l, a ≠ pTimer → a ∉ l' → (tm.queue.timer a).enmState = .pendingStop ∧
      tm'.queue.offSchedule = []
  offSchedule : pTimer ∉ tm'.queue.offSchedule
  notCreated : .own pTimer ∉ created.erase (.own pTimer)
  freeOnce : tm'.pFree.count (.own pTimer) = 1

/-- The timer that is destroyed is the only one of a batch that does not wait for it. -/
theorem TimersOk.waits (ok : TimersOk tm l created) {before : TmTimerQueue cTimers}
    (offSchedule : before.offSchedule = tm.queue.offSchedule)
    (self : (before.timer pTimer).enmState = .destroy)
    (others : ∀ a, a ≠ pTimer → before.timer a = tm.queue.timer a) :
    ∀ a ∈ before.offSchedule, (before.timer a).enmState.isScheduled ∨
      (before.timer a).enmState = .destroy := by
  intro a member
  by_cases this : a = pTimer
  · exact .inr (this ▸ self)
  · rw [others a this]
    exact .inl ((ok.scheduled a).mp (offSchedule ▸ member))

theorem destroyInQueue_states (pTimer : Fin cTimers) (fActive fPending : Bool)
    (ok : TimersOk tm l created) : (destroyInQueue tm.queue pTimer fActive fPending).offSchedule =
        (if fPending then [] else tm.queue.offSchedule) ∧
      ((destroyInQueue tm.queue pTimer fActive fPending).timer pTimer).enmState = .destroy ∧
      ∀ a, a ≠ pTimer → ((destroyInQueue tm.queue pTimer fActive fPending).timer a).enmState =
        if fPending then (tm.queue.timer a).enmState.settled else (tm.queue.timer a).enmState := by
  obtain ⟨before, same, offSchedule, self, others⟩ : ∃ before : TmTimerQueue cTimers,
      destroyInQueue tm.queue pTimer fActive fPending =
        (if fPending then tmTimerQueueSchedule before else before) ∧
      before.offSchedule = tm.queue.offSchedule ∧
      (before.timer pTimer).enmState = .destroy ∧
      ∀ a, a ≠ pTimer → before.timer a = tm.queue.timer a := by
    refine ⟨_, rfl, ?_, ?_, ?_⟩
    · split <;> rfl
    · split <;> exact congrArg TmTimer.enmState setTimer_self
    · intro a other
      split <;> exact setTimer_of_ne other
  rw [same]
  cases fPending with
  | false => exact ⟨offSchedule, self, fun a other => congrArg _ (others a other)⟩
  | true =>
    simp only [if_true]
    have waits := ok.waits offSchedule self others
    obtain ⟨empty, settles, stays⟩ := batch_states { before with offSchedule := [] }
      waits (offSchedule ▸ ok.once)
    refine ⟨empty, ?_, fun a other => ?_⟩
    · by_cases member : pTimer ∈ before.offSchedule
      · exact (settles pTimer member).trans (congrArg TmTimerState.settled self)
      · exact (congrArg TmTimer.enmState (stays pTimer member)).trans self
    · by_cases member : a ∈ before.offSchedule
      · exact (settles a member).trans (by rw [show before.timer a = _ from others a other])
      · have idle : ¬ (tm.queue.timer a).enmState.isScheduled :=
          fun scheduled => member (offSchedule ▸ (ok.scheduled a).mpr scheduled)
        rw [settled_of_notScheduled idle, ← others a other]
        exact congrArg TmTimer.enmState (stays a member)

/-- With the active list in order the timer is destroyed. -/
theorem destroyed_of_active (ok : TimersOk tm l created)
    (notFree : (tm.queue.timer pTimer).enmState ≠ .free)
    (pending : fPending = (tm.queue.timer pTimer).enmState.isScheduled)
    (active : ∃ l', ActiveOk (destroyInQueue tm.queue pTimer fActive fPending) l') :
    Destroyed tm (destroyTimer tm pTimer fActive fPending) pTimer l created := by
  obtain ⟨offSchedule, self, others⟩ := destroyInQueue_states pTimer fActive fPending ok
  obtain ⟨l', active⟩ := active
  have active' : ActiveOk (destroyTimer tm pTimer fActive fPending).queue l' :=
    active.set (by rw [self]; rfl) nofun
  have stateSelf : ((destroyTimer tm pTimer fActive fPending).queue.timer pTimer).enmState =
      .free := congrArg TmTimer.enmState setTimer_self
  have stateOther : ∀ a, a ≠ pTimer →
      ((destroyTimer tm pTimer fActive fPending).queue.timer a).enmState =
        if fPending then (tm.queue.timer a).enmState.settled else (tm.queue.timer a).enmState := by
    intro a other
    rw [← others a other]
    exact congrArg TmTimer.enmState (setTimer_of_ne other)
  have fresh : pTimer ∉ (destroyTimer tm pTimer fActive fPending).queue.offSchedule := by
    show pTimer ∉ (destroyInQueue tm.queue pTimer fActive fPending).offSchedule
    rw [offSchedule]
    split
    · exact not_mem_nil
    · rename_i idle
      rw [ok.scheduled, ← pending]
      exact idle
  have inCreated : .own pTimer ∈ created := (ok.isCreated pTimer).mpr notFree
  have notInFree : .own pTimer ∉ tm.pFree := ok.apart _ inCreated
  have notCreated : (.own pTimer : AnyTimer cTimers cOthers) ∉ created.erase (.own pTimer) :=
    fun member => (Nodup.mem_erase_iff ok.createdList.nodup).mp member |>.1 rfl
  have settledIff : ∀ enmState : TmTimerState, (enmState.settled = .free ↔ enmState = .free) ∧
      (enmState.settled = .destroy → enmState = .destroy) := by
    intro enmState
    cases enmState <;> decide
  refine ⟨⟨l', ?_, ?_, ?_⟩, fresh, notCreated, ?_⟩
  · constructor
    · exact active'
    · intro a
      by_cases this : a = pTimer
      · rw [this, stateSelf]
        exact iff_of_false fresh nofun
      · rw [stateOther a this]
        show a ∈ (destroyInQueue tm.queue pTimer fActive fPending).offSchedule ↔ _
        rw [offSchedule]
        split
        · rw [settled_notScheduled]
          simp
        · exact ok.scheduled a
    · show (destroyInQueue tm.queue pTimer fActive fPending).offSchedule.Nodup
      rw [offSchedule]
      split
      · exact nodup_nil
      · exact ok.once
    · intro a
      by_cases this : a = pTimer
      · rw [this, stateSelf]
        exact nofun
      · rw [stateOther a this]
        split
        · exact fun same => ok.alive a ((settledIff _).2 same)
        · exact ok.alive a
    · obtain ⟨xs, ys, rfl⟩ := append_of_mem inCreated
      have apart := ok.createdList.nodup
      rw [nodup_middle, nodup_cons] at apart
      rw [erase_append_right _ fun member => apart.1 (mem_append_left _ member), erase_cons_head]
      exact ok.createdList.unlink
    · exact nodup_cons.mpr ⟨notInFree, ok.free⟩
    · intro x member inFree
      rcases mem_cons.mp inFree with rfl | inFree
      · exact notCreated member
      · exact ok.apart x (mem_of_mem_erase member) inFree
    · intro a
      by_cases this : a = pTimer
      · rw [this, stateSelf]
        exact iff_of_false notCreated fun same => same rfl
      · rw [stateOther a this, mem_erase_of_ne (by simpa using this), ok.isCreated a]
        split
        · exact not_congr (settledIff _).1.symm
        · rfl
    · intro a
      show .own a ∈ AnyTimer.own pTimer :: tm.pFree ↔ _
      by_cases this : a = pTimer
      · rw [this, stateSelf]
        simp
      · rw [stateOther a this, mem_cons, or_iff_right (by simpa using this), ok.isFree a]
        split
        · exact (settledIff _).1.symm
        · rfl
  · rw [active'.linked, stateSelf]
    exact nofun
  · intro a linked other lost
    rw [active'.linked, stateOther a other] at lost
    rw [ok.active.linked] at linked
    show _ ∧ (destroyInQueue tm.queue pTimer fActive fPending).offSchedule = []
    rw [offSchedule]
    cases fPending with
    | false => exact absurd linked lost
    | true =>
      refine ⟨?_, rfl⟩
      revert lost linked
      cases (tm.queue.timer a).enmState <;> simp [TmTimerState.isLinked, TmTimerState.settled]
  · show (AnyTimer.own pTimer :: tm.pFree).count (.own pTimer) = 1
    rw [count_cons_self, count_eq_zero.mpr notInFree]

/-! ### Unlinking a timer that is not linked -/

/-- The head of the list is lost. -/
def beheaded (pQueue : TmTimerQueue cTimers) : TmTimerQueue cTimers :=
  { pQueue with links := { pQueue.links with head := none }, u64Expire := int64Max }

theorem unlink_outside (list : Represents pQueue.links l) (absent : pTimer ∉ l) :
    tmTimerQueueUnlinkActive pQueue pTimer = beheaded pQueue := by
  obtain ⟨next, prev⟩ := list.outside pTimer absent
  have sameNext : update pQueue.links.next pTimer none = pQueue.links.next := by
    rw [← next, update_eq_self]
  have samePrev : update pQueue.links.prev pTimer none = pQueue.links.prev := by
    rw [← prev, update_eq_self]
  simp only [tmTimerQueueUnlinkActive, Links.unlink, beheaded, next, prev, sameNext, samePrev]

theorem takenOff_beheaded {p : Fin cTimers} (prev : pQueue.links.prev pTimer = some p) :
    takenOff (beheaded pQueue) pTimer enmState = beheaded (takenOff pQueue pTimer enmState) := by
  simp [takenOff, beheaded, tmTimerQueueUnlinkActive, Links.unlink, TmTimerQueue.setTimer,
    withState, prev]

/-- Taking the first timer off brings the rest of the list back. -/
theorem takenOff_first (prev : pQueue.links.prev pTimer = none) :
    takenOff (beheaded pQueue) pTimer enmState = takenOff pQueue pTimer enmState := by
  simp [takenOff, beheaded, tmTimerQueueUnlinkActive, Links.unlink, TmTimerQueue.setTimer,
    withState, prev]

/-- A batch makes good that the head was lost if it takes the first timer off before it inserts
another. -/
theorem foldl_beheaded {pHead : Fin cTimers} {before after : List (Fin cTimers)}
    (ok : ActiveOk pQueue l) (head : l.head? = some pHead)
    (pending : (pQueue.timer pHead).enmState.isScheduled)
    (waits : ∀ a ∈ before, (pQueue.timer a).enmState.isScheduled ∨
      (pQueue.timer a).enmState = .destroy)
    (noInsert : ∀ a ∈ before, ¬ Inserts pQueue a) (once : (before ++ pHead :: after).Nodup) :
    (before ++ pHead :: after).foldl tmTimerQueueScheduleOne (beheaded pQueue) =
      (before ++ pHead :: after).foldl tmTimerQueueScheduleOne pQueue := by
  induction before generalizing pQueue l with
  | nil =>
    obtain ⟨ys, rfl⟩ : ∃ ys, l = pHead :: ys := by
      cases l with
      | nil => cases head
      | cons a ys =>
        cases head
        exact ⟨ys, rfl⟩
    have list : Represents pQueue.links ([] ++ pHead :: ys) := ok.list
    have prev := list.around.1
    have linked := (ok.linked pHead).mp (mem_cons_self ..)
    have first : tmTimerQueueScheduleOne (beheaded pQueue) pHead =
        tmTimerQueueScheduleOne pQueue pHead := by
      have same : (beheaded pQueue).timer = pQueue.timer := rfl
      cases state : (pQueue.timer pHead).enmState <;> rw [state] at linked pending
      case pendingReschedule =>
        rw [scheduleOne_pendingReschedule state, scheduleOne_pendingReschedule (same ▸ state),
          takenOff_first prev]
      case pendingStop =>
        rw [scheduleOne_pendingStop state, scheduleOne_pendingStop (same ▸ state),
          takenOff_first prev]
      all_goals first | exact absurd linked (by decide) | exact absurd pending (by decide)
    rw [nil_append, foldl_cons, foldl_cons, first]
  | cons a before ih =>
    rw [cons_append, nodup_cons] at once
    have waitsA := waits a (mem_cons_self ..)
    have notHead : pHead ≠ a := by
      rintro rfl
      exact once.1 (by simp)
    obtain ⟨l', ok', head', commutes⟩ : ∃ l', ActiveOk (tmTimerQueueScheduleOne pQueue a) l' ∧
        l'.head? = some pHead ∧ tmTimerQueueScheduleOne (beheaded pQueue) a =
          beheaded (tmTimerQueueScheduleOne pQueue a) := by
      have noInsert := noInsert a (mem_cons_self ..)
      have same : (beheaded pQueue).timer = pQueue.timer := rfl
      cases state : (pQueue.timer a).enmState <;> rw [state] at waitsA
      case pendingSchedule => exact absurd (.inl state) noInsert
      case pendingReschedule => exact absurd (.inr state) noInsert
      case pendingStopSchedule =>
        refine ⟨l, ?_, head, ?_⟩
        · rw [scheduleOne_pendingStopSchedule state, scheduleStop_eq state]
          exact ok.set (by rw [state]; rfl) nofun
        · rw [scheduleOne_pendingStopSchedule state,
            scheduleOne_pendingStopSchedule (same ▸ state), scheduleStop_eq state,
            scheduleStop_eq (same ▸ state)]
          rfl
      case pendingStop =>
        obtain ⟨xs, ys, rfl⟩ := append_of_mem
          ((ok.linked a).mpr (by rw [state]; rfl))
        cases xs with
        | nil =>
          cases head
          exact absurd rfl notHead
        | cons x xs =>
          obtain ⟨p, prev⟩ : ∃ p, pQueue.links.prev a = some p := by
            rw [ok.list.around.1]
            exact ⟨_, getLast?_cons⟩
          have off : ActiveOk (takenOff pQueue a .pendingStopSchedule) (x :: xs ++ ys) :=
            ok.takeOff rfl
          refine ⟨x :: xs ++ ys, ?_, head, ?_⟩
          · rw [scheduleOne_pendingStop state, scheduleStop_eq takenOff_state]
            exact off.set (by rw [takenOff_state]; rfl) nofun
          · rw [scheduleOne_pendingStop state, scheduleOne_pendingStop (same ▸ state),
              scheduleStop_eq takenOff_state, scheduleStop_eq takenOff_state,
              takenOff_beheaded prev]
            rfl
      case destroy =>
        exact ⟨l, by rwa [scheduleOne_destroy state], head, by
          rw [scheduleOne_destroy state, scheduleOne_destroy (same ▸ state)]⟩
      all_goals exact absurd waitsA (by decide)
    have others := (scheduleOne_states waitsA).2.2
    have other : ∀ b ∈ before, b ≠ a := by
      rintro b member rfl
      exact once.1 (mem_append_left _ member)
    rw [cons_append, foldl_cons, foldl_cons, commutes]
    refine ih ok' head' ?_ (fun b member => ?_) (fun b member => ?_) once.2
    · rw [others pHead notHead]
      exact pending
    · rw [others b (other b member)]
      exact waits b (mem_cons_of_mem a member)
    · rw [Inserts, others b (other b member)]
      exact noInsert b (mem_cons_of_mem a member)

/-! ### The function -/

def TmTimerState.isDestroyable : TmTimerState → Bool
  | stopped | expiredDeliver | active | pendingStop | pendingStopSchedule | pendingReschedule
  | pendingSchedule => true
  | _ => false

/-- The first timer of the active list is pending, and the batch comes to it before it inserts
a timer. -/
def HeadFirst (pQueue : TmTimerQueue cTimers) (l : List (Fin cTimers)) : Prop :=
  ∃ pHead before after, l.head? = some pHead ∧ pQueue.offSchedule = before ++ pHead :: after ∧
    ∀ a ∈ before, ¬ Inserts pQueue a

/-- The timer is off the active list already, and the list is not lost for good. -/
theorem destroyInQueue_unlinked (ok : TimersOk tm l created)
    (state : (tm.queue.timer pTimer).enmState = .pendingStopSchedule)
    (spared : l = [] ∨ HeadFirst tm.queue l) :
    ∃ l', ActiveOk (destroyInQueue tm.queue pTimer true true) l' := by
  have absent : pTimer ∉ l := by
    rw [ok.active.linked, state]
    exact nofun
  have before : ActiveOk (tm.queue.setState pTimer .destroy) l :=
    ok.active.set (by rw [state]; rfl) nofun
  have self : ((tm.queue.setState pTimer .destroy).timer pTimer).enmState = .destroy :=
    congrArg TmTimer.enmState setTimer_self
  have others : ∀ a, a ≠ pTimer →
      (tm.queue.setState pTimer .destroy).timer a = tm.queue.timer a :=
    fun a other => setTimer_of_ne other
  have waits : ∀ a ∈ (tm.queue.setState pTimer .destroy).offSchedule, _ := ok.waits rfl self others
  have queue : destroyInQueue tm.queue pTimer true true =
      tmTimerQueueSchedule (beheaded (tm.queue.setState pTimer .destroy)) := by
    rw [← unlink_outside before.list absent]
    rfl
  rw [queue]
  rcases spared with rfl | ⟨pHead, first, rest, head, batch, noInsert⟩
  · have head : (tm.queue.setState pTimer .destroy).links.head = none := before.list.head
    have list : Represents (beheaded (tm.queue.setState pTimer .destroy)).links [] := by
      have same : (beheaded (tm.queue.setState pTimer .destroy)).links =
          (tm.queue.setState pTimer .destroy).links := by
        rw [beheaded, ← head]
      rw [same]
      exact before.list
    have empty : ActiveOk { beheaded (tm.queue.setState pTimer .destroy) with offSchedule := [] }
        [] := ⟨list, before.linked, rfl⟩
    exact empty.batch waits ok.once
  · have inList : pHead ∈ l := mem_of_head? head
    have notSelf : pHead ≠ pTimer := fun same => absent (same ▸ inList)
    have batch' : (tm.queue.setState pTimer .destroy).offSchedule = first ++ pHead :: rest := batch
    have same : tmTimerQueueSchedule (beheaded (tm.queue.setState pTimer .destroy)) =
        tmTimerQueueSchedule (tm.queue.setState pTimer .destroy) := by
      have ok' : ActiveOk { tm.queue.setState pTimer .destroy with offSchedule := [] } l :=
        ⟨before.list, before.linked, before.head⟩
      rw [tmTimerQueueSchedule, tmTimerQueueSchedule]
      show (tm.queue.setState pTimer .destroy).offSchedule.foldl tmTimerQueueScheduleOne
        (beheaded { tm.queue.setState pTimer .destroy with offSchedule := [] }) = _
      rw [batch']
      refine foldl_beheaded ok' head ?_ (fun a member => ?_) (fun a member => ?_) ?_
      · show ((tm.queue.setState pTimer .destroy).timer pHead).enmState.isScheduled
        rw [others pHead notSelf, ← ok.scheduled, batch]
        simp
      · exact waits a (batch' ▸ mem_append_left _ member)
      · show ¬ Inserts (tm.queue.setState pTimer .destroy) a
        by_cases this : a = pTimer
        · rw [Inserts, this, self]
          decide
        · rw [Inserts, others a this]
          exact noInsert a member
      · rw [← batch]
        exact ok.once
    rw [same]
    have ok' : ActiveOk { tm.queue.setState pTimer .destroy with offSchedule := [] } l :=
      ⟨before.list, before.linked, before.head⟩
    exact ok'.batch waits ok.once

/-- The timer is destroyed, and nothing else, if it is not waiting to be stopped off the list,
or the list is not lost by that. -/
theorem tmR3TimerDestroy_ok (ok : TimersOk tm l created)
    (destroyable : (tm.queue.timer pTimer).enmState.isDestroyable)
    (spared : (tm.queue.timer pTimer).enmState = .pendingStopSchedule →
      l = [] ∨ HeadFirst tm.queue l) : (tmR3TimerDestroy tm pTimer).2 = .vinfSuccess ∧
      Destroyed tm (tmR3TimerDestroy tm pTimer).1 pTimer l created := by
  have self : ∀ pQueue : TmTimerQueue cTimers,
      ((pQueue.setState pTimer .destroy).timer pTimer).enmState = .destroy :=
    fun _ => congrArg TmTimer.enmState setTimer_self
  have pass : ∀ {before : TmTimerQueue cTimers} {l' : List (Fin cTimers)}, ActiveOk before l' →
      before.offSchedule = tm.queue.offSchedule →
      before.timer = (tm.queue.setState pTimer .destroy).timer →
      ∃ l', ActiveOk (tmTimerQueueSchedule before) l' := by
    intro before l' active offSchedule timers
    have waits := ok.waits offSchedule (by rw [timers]; exact self _) fun a other => by
      rw [timers]
      exact setTimer_of_ne other
    have ok' : ActiveOk { before with offSchedule := [] } l' :=
      ⟨active.list, active.linked, active.head⟩
    exact ok'.batch waits (offSchedule ▸ ok.once)
  have unlinked : (tm.queue.timer pTimer).enmState.isLinked = false →
      ActiveOk (tm.queue.setState pTimer .destroy) l :=
    fun state => ok.active.set (by rw [state]; rfl) nofun
  have off : (tm.queue.timer pTimer).enmState.isLinked = true →
      ∃ l', ActiveOk (takenOff tm.queue pTimer .destroy) l' := by
    intro linked
    obtain ⟨xs, ys, rfl⟩ := append_of_mem ((ok.active.linked pTimer).mpr linked)
    exact ⟨_, ok.active.takeOff rfl⟩
  rw [tmR3TimerDestroy]
  cases state : (tm.queue.timer pTimer).enmState <;> rw [state] at destroyable unlinked off
  case stopped | expiredDeliver =>
    exact ⟨rfl, destroyed_of_active ok (by rw [state]; exact nofun) (by rw [state]; rfl)
      ⟨l, unlinked rfl⟩⟩
  case active =>
    exact ⟨rfl, destroyed_of_active ok (by rw [state]; exact nofun) (by rw [state]; rfl) (off rfl)⟩
  case pendingSchedule =>
    exact ⟨rfl, destroyed_of_active ok (by rw [state]; exact nofun) (by rw [state]; rfl)
      (pass (unlinked rfl) rfl rfl)⟩
  case pendingStop | pendingReschedule =>
    obtain ⟨l', off⟩ := off rfl
    exact ⟨rfl, destroyed_of_active ok (by rw [state]; exact nofun) (by rw [state]; rfl)
      (pass off rfl rfl)⟩
  case pendingStopSchedule =>
    exact ⟨rfl, destroyed_of_active ok (by rw [state]; exact nofun) (by rw [state]; rfl)
      (destroyInQueue_unlinked ok state (spared state))⟩
  all_goals exact absurd destroyable (by decide)

end Destroying

end VBox.Vmm.Tm
