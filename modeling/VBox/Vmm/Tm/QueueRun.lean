import VBox.Vmm.Tm.DeliverRuns

/-!
Running the timers of a queue that is not the virtual sync queue.

`tmR3TimerQueueRun` remembers the next timer before it calls back. A callback runs on an
EMT, so that what it posts is moved at once, and it may move the remembered timer too.
`queueRun_serves` says that as long as none does, every expired timer that nobody touches
is served once. `queueRun_skips` is a callback that stops the remembered timer.
-/

namespace VBox.Vmm.Tm

open VBox.Lib VBox.Lib.Links List

variable {cTimers : Nat}

inductive EmtCall (cTimers : Nat) where
  | set (pTimer : Fin cTimers) (u64Expire : Nat)
  | stop (pTimer : Fin cTimers)
  deriving DecidableEq

def EmtCall.pTimer : EmtCall cTimers → Fin cTimers
  | set pTimer _ => pTimer
  | stop pTimer => pTimer

/-- `tmSchedule` on an EMT, which owns the lock, behind what a call has posted. It raises no
force action. -/
def tmScheduleEmt (tm tm' : TmState cTimers) : TmState cTimers :=
  { tm' with queue := tmTimerQueueSchedule tm'.queue, fTimerFF := tm.fTimerFF }

/-- `TMTimerSet` on an EMT. -/
def tmTimerSetEmt (tm : TmState cTimers) (pTimer : Fin cTimers) (u64Expire : Nat) :
    TmState cTimers :=
  match tmTimerSet true tm pTimer u64Expire with
  | (tm', .vinfSuccess) =>
      if startsInactive (tm.queue.timer pTimer) then tm' else tmScheduleEmt tm tm'
  | (tm', _) => tm'

/-- The states in which `TMTimerStop` changes the state and calls `tmSchedule`. -/
def stopsActive (t : TmTimer) : Bool :=
  t.enmState = .active || t.enmState = .pendingSchedule || t.enmState = .pendingReschedule

/-- `TMTimerStop` on an EMT. -/
def tmTimerStopEmt (tm : TmState cTimers) (pTimer : Fin cTimers) : TmState cTimers :=
  let tm' := (tmTimerStop tm pTimer).1
  if stopsActive (tm.queue.timer pTimer) then tmScheduleEmt tm tm' else tm'

def EmtCall.apply (tm : TmState cTimers) : EmtCall cTimers → TmState cTimers
  | set pTimer u64Expire => tmTimerSetEmt tm pTimer u64Expire
  | stop pTimer => tmTimerStopEmt tm pTimer

/-- What happens in a run. -/
inductive RunEvent (cTimers : Nat) where
  | call (call : EmtCall cTimers)
  | deliver (pTimer : Fin cTimers)
  deriving DecidableEq

/-- Where `tmR3TimerQueueRun` stands, and what has happened. -/
structure QueueRun (cTimers : Nat) where
  tm : TmState cTimers
  pNext : Option (Fin cTimers)
  events : List (RunEvent cTimers)

def QueueRun.start (tm : TmState cTimers) : QueueRun cTimers :=
  { tm := tm, pNext := tm.queue.links.head, events := [] }

/-- The queue a callback finds: its timer is off the list. -/
def expire (pQueue : TmTimerQueue cTimers) (pTimer : Fin cTimers) : TmTimerQueue cTimers :=
  (tmTimerQueueUnlinkActive (pQueue.setState pTimer .expiredGetUnlink) pTimer).setState pTimer
    .expiredDeliver

/-- The timer is stopped if its callback has not changed its state. -/
def finishDelivery (pQueue : TmTimerQueue cTimers) (pTimer : Fin cTimers) :
    TmTimerQueue cTimers :=
  (tmTimerTry pQueue pTimer .stopped .expiredDeliver).1

/-- One round of the loop, in which the callback makes `calls`. -/
def QueueRun.round (r : QueueRun cTimers) (pTimer : Fin cTimers)
    (calls : List (EmtCall cTimers)) : QueueRun cTimers :=
  let pNext := r.tm.queue.links.next pTimer
  if (r.tm.queue.timer pTimer).enmState = .active then
    let tm := calls.foldl EmtCall.apply { r.tm with queue := expire r.tm.queue pTimer }
    { tm := { tm with queue := finishDelivery tm.queue pTimer }
      pNext := pNext
      events := r.events ++ .deliver pTimer :: calls.map .call }
  else { r with pNext := pNext }

/-- The timer the loop goes on with. -/
def QueueRun.due (r : QueueRun cTimers) (u64Now : Nat) : Option (Fin cTimers) :=
  r.pNext.filter fun pNext => (r.tm.queue.timer pNext).u64Expire ≤ u64Now

def RoundStep (u64Now : Nat) (r : QueueRun cTimers) (calls : List (EmtCall cTimers))
    (r' : QueueRun cTimers) : Prop :=
  (r.due u64Now).map (fun pTimer => r.round pTimer calls) = some r'

/-- The callback does not touch the timer the loop remembers. -/
def LeavesNext (u64Now : Nat) (r : QueueRun cTimers) (calls : List (EmtCall cTimers)) : Prop :=
  ∀ pTimer ∈ r.due u64Now, ∀ call ∈ calls,
    r.tm.queue.links.next pTimer ≠ some call.pTimer

/-- No callback touches the timer. -/
def Untouched (events : List (RunEvent cTimers)) (a : Fin cTimers) : Prop :=
  ∀ call, .call call ∈ events → call.pTimer ≠ a

/-- The timer has been stopped and not been armed since. -/
def Halted (events : List (RunEvent cTimers)) (a : Fin cTimers) : Prop :=
  ∃ before after, events = before ++ .call (.stop a) :: after ∧
    ∀ u64Expire, .call (.set a u64Expire) ∉ after

/-- No timer is delivered after it has been stopped. -/
def NoneHalted (events : List (RunEvent cTimers)) : Prop :=
  ∀ before a after, events = before ++ .deliver a :: after → ¬ Halted before a

section Moves

variable {pQueue pQueue' : TmTimerQueue cTimers} {tm : TmState cTimers} {pTimer : Fin cTimers}
  {l l' waiting xs ys : List (Fin cTimers)}

theorem filter_placed {u64Expire : Nat} :
    (placed pQueue pTimer u64Expire l).filter (· ≠ pTimer) = l.filter (· ≠ pTimer) := by
  rw [placed, filter_append, filter_cons_of_neg (by simp), ← filter_append,
    takeWhile_append_dropWhile]

/-- A queue in which only one timer has moved. -/
structure Moves (pQueue pQueue' : TmTimerQueue cTimers) (pTimer : Fin cTimers)
    (l l' : List (Fin cTimers)) : Prop where
  ok : QueueOk pQueue' l' []
  offSchedule : pQueue'.offSchedule = []
  others : ∀ a, a ≠ pTimer → (pQueue'.timer a).enmState = (pQueue.timer a).enmState ∧
    (pQueue'.timer a).u64Expire = (pQueue.timer a).u64Expire
  order : l'.filter (· ≠ pTimer) = l.filter (· ≠ pTimer)

theorem Moves.refl (ok : QueueOk pQueue l []) (offSchedule : pQueue.offSchedule = []) :
    Moves pQueue pQueue pTimer l l :=
  ⟨ok, offSchedule, fun _ _ => ⟨rfl, rfl⟩, rfl⟩

/-- Scheduling a timer leaves the order of the others. -/
theorem scheduleOne_order (ok : QueueOk pQueue l (pTimer :: waiting)) :
    (tmTimerQueueScheduleOne pQueue pTimer).active.filter (· ≠ pTimer) = l.filter (· ≠ pTimer) := by
  have waits := (ok.scheduled pTimer).mp (mem_cons_self ..)
  have inserted : ∀ {pQueue : TmTimerQueue cTimers} {l : List (Fin cTimers)},
      Represents pQueue.links l → pTimer ∉ l →
      (pQueue.timer pTimer).enmState = .pendingSchedule →
      (scheduleInsert pQueue pTimer).1.active.filter (· ≠ pTimer) = l.filter (· ≠ pTimer) := by
    intro pQueue l list fresh state
    have list' : Represents (pQueue.setTimer pTimer (withState pQueue pTimer .active)).links l :=
      list
    rw [scheduleInsert_eq state, active_eq (tmTimerQueueLinkActive_represents _ list' fresh).1,
      filter_placed]
  have taken : ∀ {enmState : TmTimerState}, (pQueue.timer pTimer).enmState.isLinked →
      ∃ l', Represents (takenOff pQueue pTimer enmState).links l' ∧ pTimer ∉ l' ∧
        l'.filter (· ≠ pTimer) = l.filter (· ≠ pTimer) := by
    intro enmState linked
    obtain ⟨xs, ys, rfl⟩ := append_of_mem ((ok.linked pTimer).mpr linked)
    have nodup := ok.list.nodup
    rw [nodup_middle, nodup_cons] at nodup
    have list : Represents (pQueue.setTimer pTimer (withState pQueue pTimer enmState)).links
        (xs ++ pTimer :: ys) := ok.list
    refine ⟨xs ++ ys, (tmTimerQueueUnlinkActive_represents list).1, nodup.1, ?_⟩
    simp
  have unlinked : ¬ (pQueue.timer pTimer).enmState.isLinked → pTimer ∉ l :=
    fun unlinked member => unlinked ((ok.linked pTimer).mp member)
  cases state : (pQueue.timer pTimer).enmState <;> rw [state] at waits
  case pendingSchedule =>
    rw [scheduleOne_pendingSchedule state]
    exact inserted ok.list (unlinked (by rw [state]; exact nofun)) state
  case pendingStopSchedule =>
    rw [scheduleOne_pendingStopSchedule state, scheduleStop_eq state]
    have list : Represents (pQueue.setTimer pTimer (withState pQueue pTimer .stopped)).links l :=
      ok.list
    rw [active_eq list]
  case pendingReschedule =>
    obtain ⟨l', list, fresh, order⟩ := taken (by rw [state]; rfl)
    rw [scheduleOne_pendingReschedule state, inserted list fresh takenOff_state, order]
  case pendingStop =>
    obtain ⟨l', list, fresh, order⟩ := taken (by rw [state]; rfl)
    rw [scheduleOne_pendingStop state, scheduleStop_eq takenOff_state]
    have list : Represents ((takenOff pQueue pTimer .pendingStopSchedule).setTimer pTimer
      (withState (takenOff pQueue pTimer .pendingStopSchedule) pTimer .stopped)).links l' := list
    rw [active_eq list, order]
  all_goals cases waits

/-- What is posted alone is moved by the next pass. -/
theorem schedule_moves {u64Expire : Nat} (ok : QueueOk pQueue l [])
    (offSchedule : pQueue.offSchedule = []) (posts : PostsOnly pQueue pTimer u64Expire pQueue') :
    ∃ l', Moves pQueue (tmTimerQueueSchedule pQueue') pTimer l l' := by
  rcases posts with rfl | ⟨new, posts, rfl⟩
  · rw [tmTimerQueueSchedule, offSchedule]
    exact ⟨l, ok.congr rfl rfl fun _ => ⟨rfl, rfl⟩, rfl, fun _ _ => ⟨rfl, rfl⟩, rfl⟩
  · have idle : ¬ (pQueue.timer pTimer).enmState.isScheduled :=
      fun scheduled => not_mem_nil ((ok.scheduled pTimer).mpr scheduled)
    have postsOnly : PostsOnly pQueue pTimer u64Expire (posted pQueue pTimer
        { pQueue.timer pTimer with enmState := new, u64Expire := u64Expire }) :=
      .inr ⟨new, posts, rfl⟩
    have ok' : QueueOk (posted pQueue pTimer
        { pQueue.timer pTimer with enmState := new, u64Expire := u64Expire }) l _ :=
      QueueOk.posts (offSchedule.symm ▸ ok) postsOnly
    have batch : (posted pQueue pTimer
        { pQueue.timer pTimer with enmState := new, u64Expire := u64Expire }).offSchedule =
        [pTimer] := by
      rw [posted, if_neg idle]
      exact congrArg (pTimer :: ·) offSchedule
    have others : ∀ a, a ≠ pTimer → (posted pQueue pTimer
        { pQueue.timer pTimer with enmState := new, u64Expire := u64Expire }).timer a =
        pQueue.timer a := by
      intro a other
      rw [posted, if_neg idle]
      exact setTimer_of_ne other
    rw [batch] at ok'
    rw [tmTimerQueueSchedule, batch, foldl_cons, foldl_nil]
    have one : QueueOk { posted pQueue pTimer
        { pQueue.timer pTimer with enmState := new, u64Expire := u64Expire } with
        offSchedule := [] } l [pTimer] := ok'.congr rfl rfl fun _ => ⟨rfl, rfl⟩
    obtain ⟨l', moved, step⟩ := scheduleOne_ok one fun _ a c before notArmed _ _ => by
      -- the only timer on the list that is not armed is the posted one
      have linked := (one.linked a).mp (before.subset (by simp))
      have waits : a ∈ [pTimer] := by
        rw [one.scheduled a]
        revert linked notArmed
        rw [TmTimerQueue.Armed]
        cases (TmTimerQueue.timer _ a).enmState <;>
          simp [TmTimerState.isLinked, TmTimerState.isScheduled]
      rw [mem_singleton.mp waits]
    refine ⟨l', moved, step.offSchedule, fun a other => ?_, ?_⟩
    · rw [step.state a other, step.expire a]
      exact ⟨congrArg _ (others a other), congrArg _ (others a other)⟩
    · rw [← active_eq moved.list]
      exact scheduleOne_order one

/-- A timer posted to be stopped is stopped by the next pass. -/
theorem schedule_stops (state : (pQueue.timer pTimer).enmState = .active)
    (offSchedule : pQueue.offSchedule = []) : ¬ (tmTimerQueueSchedule (posted pQueue pTimer
      { pQueue.timer pTimer with enmState := .pendingStop })).Armed pTimer := by
  have notScheduled : ¬ (pQueue.timer pTimer).enmState.isScheduled := by
    rw [state]
    decide
  have waits : ∀ pQueue' : TmTimerQueue cTimers,
      (pQueue'.timer pTimer).enmState = .pendingStop →
      ((tmTimerQueueScheduleOne pQueue' pTimer).timer pTimer).enmState = .stopped := by
    intro pQueue' state
    rw [scheduleOne_pendingStop state, scheduleStop_eq takenOff_state, setTimer_self]
    rfl
  rw [posted, if_neg notScheduled, tmTimerQueueSchedule, tmTimerLinkSchedule]
  dsimp only [TmTimerQueue.setTimer]
  rw [offSchedule, foldl_cons, foldl_nil, TmTimerQueue.Armed, waits]
  · decide
  · show (Function.update pQueue.timer pTimer _ pTimer).enmState = _
    rw [Function.update_self]

theorem Moves.trans {pQueue'' : TmTimerQueue cTimers} {l'' : List (Fin cTimers)}
    (first : Moves pQueue pQueue' pTimer l l') (second : Moves pQueue' pQueue'' pTimer l' l'') :
    Moves pQueue pQueue'' pTimer l l'' where
  ok := second.ok
  offSchedule := second.offSchedule
  others := fun a other => ⟨(second.others a other).1.trans (first.others a other).1,
    (second.others a other).2.trans (first.others a other).2⟩
  order := second.order.trans first.order

/-- What a call returns that all its rounds agree on. -/
theorem retry_result {round : TmState cTimers → Option (TmState cTimers × Rc)} (cRetries : Nat)
    (effect : TmState cTimers × Rc → Prop) (nothing : effect (tm, .verrTmTimerUnstableState))
    (returns : ∀ result, round tm = some result → effect result) :
    effect (retry round cRetries tm) := by
  induction cRetries with
  | zero => exact nothing
  | succ cRetries ih =>
    rw [retry]
    cases found : round tm with
    | none => exact ih
    | some result => exact returns result found

/-- A `TMTimerSet` that fails leaves everything as it was. -/
theorem tmTimerSet_fails (u64Expire : Nat) (starts : ¬ startsInactive (tm.queue.timer pTimer)) :
    (tmTimerSet true tm pTimer u64Expire).2 ≠ .vinfSuccess →
      (tmTimerSet true tm pTimer u64Expire).1 = tm := by
  have ends : ∀ {enmState : TmTimerState} {tried : TmTimerQueue cTimers × Bool}
      {result : TmState cTimers × Rc},
      setExpireAndSchedule tm pTimer u64Expire enmState tried = some result →
      result.2 ≠ .vinfSuccess → result.1 = tm := by
    rintro enmState ⟨pQueue', _ | _⟩ result found failed
    · cases found
    · cases found
      exact absurd rfl failed
  rw [tmTimerSet, if_neg (by simpa using starts)]
  refine retry_result 1001 (fun result => result.2 ≠ .vinfSuccess → result.1 = tm)
    (fun _ => rfl) fun result found => ?_
  rw [tmTimerSetRound] at found
  cases state : (tm.queue.timer pTimer).enmState <;> rw [state] at found <;> dsimp only at found
  case destroy | free =>
    cases found
    exact fun _ => rfl
  case expiredGetUnlink | pendingScheduleSetExpire | pendingRescheduleSetExpire => cases found
  all_goals exact ends found

/-- Arming a timer on an EMT moves only that timer. -/
theorem set_moves (u64Expire : Nat) (ok : QueueOk tm.queue l [])
    (offSchedule : tm.queue.offSchedule = []) :
    ∃ l', Moves tm.queue (tmTimerSetEmt tm pTimer u64Expire).queue pTimer l l' := by
  by_cases starts : startsInactive (tm.queue.timer pTimer)
  · have unlinked : ¬ (tm.queue.timer pTimer).enmState.isLinked := by
      rw [startsInactive, Bool.or_eq_true, Bool.and_eq_true, decide_eq_true_eq,
        decide_eq_true_eq] at starts
      rcases starts with state | ⟨state, -⟩ <;> rw [state] <;> decide
    have queue : (tmTimerSetEmt tm pTimer u64Expire).queue =
        tmTimerQueueLinkActive (tm.queue.setTimer pTimer
          { tm.queue.timer pTimer with enmState := .active, u64Expire := u64Expire }) pTimer
          u64Expire := by
      rw [tmTimerSetEmt, tmTimerSet, if_pos (by simpa using starts), tmTimerTry, if_pos rfl]
      simp [starts, tmTimerSetOptimizedStart, TmTimerQueue.setState, TmTimerQueue.setExpire]
    rw [queue]
    refine ⟨_, ok.link unlinked rfl ok.clear (fun _ => by simp) nodup_nil, ?_, ?_,
      filter_placed⟩
    · rw [tmTimerQueueLinkActive_offSchedule]
      exact offSchedule
    · intro a other
      rw [tmTimerQueueLinkActive_timer, setTimer_of_ne other]
      exact ⟨rfl, rfl⟩
  · have failed := tmTimerSet_fails u64Expire starts
    have cases : _ ∨ PostsOnly tm.queue pTimer u64Expire
      (tmTimerSet true tm pTimer u64Expire).1.queue := tmTimerSet_cases true
    rcases cases with ⟨starts', -⟩ | posts
    · rw [Bool.and_true] at starts'
      exact absurd starts' starts
    · rw [tmTimerSetEmt]
      split
      case h_1 tm' result =>
        rw [if_neg starts]
        rw [result] at posts
        exact schedule_moves ok offSchedule posts
      case h_2 tm' rc notSuccess result =>
        rw [result] at failed
        cases show tm' = tm from failed notSuccess
        exact ⟨l, .refl ok offSchedule⟩

theorem resetHzHint_moves (pTimer : Fin cTimers) (ok : QueueOk tm.queue l [])
    (offSchedule : tm.queue.offSchedule = []) :
    Moves tm.queue (resetHzHint tm pTimer).queue pTimer l l ∧
      ((resetHzHint tm pTimer).queue.timer pTimer).enmState = (tm.queue.timer pTimer).enmState := by
  have ok' : QueueOk (resetHzHint tm pTimer).queue l _ := resetHzHint_ok (offSchedule.symm ▸ ok)
  have same : (resetHzHint tm pTimer).queue.offSchedule = [] := by
    rw [resetHzHint]
    split <;> exact offSchedule
  rw [same] at ok'
  refine ⟨⟨ok', same, fun a other => ?_, rfl⟩, ?_⟩
  · rw [resetHzHint]
    split
    · dsimp only
      rw [setTimer_of_ne other]
      exact ⟨rfl, rfl⟩
    · exact ⟨rfl, rfl⟩
  · rw [resetHzHint]
    split
    · dsimp only
      rw [setTimer_self]
    · rfl

/-- Stopping a timer on an EMT moves only that timer, and it is not armed any more. -/
theorem stop_moves (ok : QueueOk tm.queue l []) (offSchedule : tm.queue.offSchedule = []) :
    (∃ l', Moves tm.queue (tmTimerStopEmt tm pTimer).queue pTimer l l') ∧
      ¬ (tmTimerStopEmt tm pTimer).queue.Armed pTimer := by
  obtain ⟨reset, sameState⟩ := resetHzHint_moves pTimer ok offSchedule
  have idle : ¬ (tm.queue.timer pTimer).enmState.isScheduled :=
    fun scheduled => not_mem_nil ((ok.scheduled pTimer).mpr scheduled)
  rw [tmTimerStopEmt]
  by_cases stops : stopsActive (tm.queue.timer pTimer)
  · have state : ((resetHzHint tm pTimer).queue.timer pTimer).enmState = .active := by
      rw [sameState]
      rw [stopsActive] at stops
      revert stops idle
      cases (tm.queue.timer pTimer).enmState <;> simp [TmTimerState.isScheduled]
    rw [if_pos stops]
    have posts : PostsOnly (resetHzHint tm pTimer).queue pTimer _
      (tmTimerStop tm pTimer).1.queue := tmTimerStop_posts
    obtain ⟨l', moves⟩ := schedule_moves reset.ok reset.offSchedule posts
    refine ⟨⟨l', reset.trans moves⟩, ?_⟩
    obtain ⟨tm', ends, queue⟩ : ∃ tm', stopAndSchedule (resetHzHint tm pTimer) pTimer
        (tmTimerTryWithLink (resetHzHint tm pTimer).queue pTimer .pendingStop .active) =
          some (tm', .vinfSuccess) ∧ tm'.queue = _ := stopAndSchedule_tryWithLink state (by decide)
    have stopped : (tmTimerStop tm pTimer).1.queue = posted (resetHzHint tm pTimer).queue pTimer
        { (resetHzHint tm pTimer).queue.timer pTimer with enmState := .pendingStop } := by
      rw [tmTimerStop, retry, tmTimerStopRound, state]
      dsimp only
      rw [ends]
      exact queue
    rw [tmScheduleEmt, stopped]
    exact schedule_stops state reset.offSchedule
  · rw [if_neg stops]
    have same : (tmTimerStop tm pTimer).1 = resetHzHint tm pTimer := by
      refine retry_result 1001 (fun result => result.1 = resetHzHint tm pTimer) rfl
        fun result found => ?_
      rw [tmTimerStopRound] at found
      rw [stopsActive, ← sameState] at stops
      cases state : ((resetHzHint tm pTimer).queue.timer pTimer).enmState <;>
        rw [state] at found stops <;> dsimp only at found
      case stopped | pendingStop | pendingStopSchedule | expiredDeliver | destroy | free =>
        cases found
        rfl
      case active | pendingSchedule | pendingReschedule => exact absurd rfl stops
      all_goals cases found
    rw [same]
    refine ⟨⟨l, reset⟩, ?_⟩
    rw [TmTimerQueue.Armed, sameState]
    intro state
    exact stops (by rw [stopsActive, state]; rfl)

end Moves

section Events

variable {events : List (RunEvent cTimers)} {e : RunEvent cTimers} {a : Fin cTimers}

theorem halted_snoc (halted : Halted (events ++ [e]) a) :
    e = .call (.stop a) ∨ Halted events a ∧ ∀ u64Expire, e ≠ .call (.set a u64Expire) := by
  obtain ⟨before, after, split, noSet⟩ := halted
  rcases eq_nil_or_concat after with rfl | ⟨after, last, rfl⟩
  · exact .inl (cons.inj (append_inj' split rfl).2).1
  · rw [concat_eq_append, ← cons_append, ← append_assoc] at split
    obtain ⟨same, single⟩ := append_inj' split rfl
    cases single
    refine .inr ⟨⟨before, after, same, fun u64Expire member => noSet u64Expire ?_⟩,
      fun u64Expire same => noSet u64Expire ?_⟩
    · exact concat_eq_append ▸ mem_append_left _ member
    · exact concat_eq_append ▸ mem_append_right _ (same ▸ mem_singleton_self _)

theorem NoneHalted.snoc (none : NoneHalted events)
    (quiet : ∀ a, e = .deliver a → ¬ Halted events a) : NoneHalted (events ++ [e]) := by
  intro before a after split
  rcases eq_nil_or_concat after with rfl | ⟨after, last, rfl⟩
  · obtain ⟨same, single⟩ := append_inj' split rfl
    rw [← same]
    exact quiet a (cons.inj single).1
  · rw [concat_eq_append, ← cons_append, ← append_assoc] at split
    exact none before a after (append_inj' split rfl).1

theorem Untouched.of_snoc (untouched : Untouched (events ++ [e]) a) : Untouched events a :=
  fun call member => untouched call (mem_append_left _ member)

end Events

section Serving

variable {tm₀ tm : TmState cTimers} {u64Now : Nat} {r : QueueRun cTimers} {pTimer : Fin cTimers}

/-- The timers that were expired at first and that nobody has touched are still to come, or
have been delivered. -/
def Remaining (tm₀ : TmState cTimers) (u64Now : Nat) (r : QueueRun cTimers)
    (rest : List (Fin cTimers)) : Prop :=
  ∀ a, tm₀.queue.Armed a → (tm₀.queue.timer a).u64Expire ≤ u64Now → Untouched r.events a →
    (r.tm.queue.timer a).u64Expire = (tm₀.queue.timer a).u64Expire ∧
      (a ∈ rest ∧ r.events.count (.deliver a) = 0 ∨
        ¬ r.tm.queue.Armed a ∧ r.events.count (.deliver a) = 1)

/-- The remembered timer is on the list, and `Remaining` goes from there. -/
structure Serving (tm₀ : TmState cTimers) (u64Now : Nat) (r : QueueRun cTimers) : Prop where
  list : ∃ front rest, QueueOk r.tm.queue (front ++ rest) [] ∧ rest.head? = r.pNext ∧
    Remaining tm₀ u64Now r rest
  offSchedule : r.tm.queue.offSchedule = []
  noneHalted : NoneHalted r.events
  quiet : ∀ a, Halted r.events a → ¬ r.tm.queue.Armed a

theorem Serving.start {l : List (Fin cTimers)} (ok : QueueOk tm.queue l [])
    (offSchedule : tm.queue.offSchedule = []) : Serving tm u64Now (.start tm) where
  list := by
    refine ⟨[], l, ok, ok.list.head.symm, fun a armed _ _ => ⟨rfl, .inl ⟨?_, rfl⟩⟩⟩
    exact ok.mem_iff_armed.mpr armed
  offSchedule := offSchedule
  noneHalted := by
    intro before a after split
    exact absurd split (by simp [QueueRun.start])
  quiet := by
    rintro a ⟨before, after, split, -⟩
    exact absurd split (by simp [QueueRun.start])

/-- The timers behind the remembered one stay behind it while another moves. -/
theorem behind_next {front rest l' : List (Fin cTimers)} (nodup : l'.Nodup)
    (order : l'.filter (· ≠ pTimer) = (front ++ rest).filter (· ≠ pTimer))
    (notNext : rest.head? ≠ some pTimer) :
    ∃ front' rest', l' = front' ++ rest' ∧ rest'.head? = rest.head? ∧
      ∀ a, a ≠ pTimer → a ∈ rest → a ∈ rest' := by
  cases rest with
  | nil => exact ⟨l', [], by simp, rfl, fun _ _ member => member⟩
  | cons n ys =>
    have other : n ≠ pTimer := fun same => notNext (congrArg some same)
    have member : n ∈ l' := by
      have inFilter : n ∈ l'.filter (· ≠ pTimer) := by
        rw [order]
        simp [other]
      exact mem_of_mem_filter inFilter
    obtain ⟨front', ys', rfl⟩ := append_of_mem member
    refine ⟨front', n :: ys', rfl, rfl, fun a notTimer behind => ?_⟩
    have kept : ∀ zs : List (Fin cTimers),
        (n :: zs).filter (· ≠ pTimer) = n :: zs.filter (· ≠ pTimer) := by
      intro zs
      simp [other]
    rw [filter_append, filter_append, kept, kept] at order
    rw [nodup_middle, nodup_cons] at nodup
    have same := ((append_cons_inj_of_notMem
      (fun earlier => nodup.1 (mem_append_left _ (mem_of_mem_filter earlier)))
      (fun later => nodup.1 (mem_append_right _ (mem_of_mem_filter later)))).mp
      order).2.2
    rcases mem_cons.mp behind with rfl | later
    · exact mem_cons_self ..
    · have inFilter : a ∈ ys.filter (· ≠ pTimer) := by simp [later, notTimer]
      rw [← same] at inFilter
      exact mem_cons_of_mem n (mem_of_mem_filter inFilter)

/-- The timer the loop remembered is delivered. -/
theorem Serving.deliver (serving : Serving tm₀ u64Now r) (next : r.pNext = some pTimer) :
    r.tm.queue.Armed pTimer ∧ Serving tm₀ u64Now
      { tm := { r.tm with queue := expire r.tm.queue pTimer }
        pNext := r.tm.queue.links.next pTimer
        events := r.events ++ [.deliver pTimer] } := by
  obtain ⟨⟨front, rest, ok, head, remaining⟩, offSchedule, noneHalted, quiet⟩ := serving
  obtain ⟨ys, rfl⟩ : ∃ ys, rest = pTimer :: ys := by
    rw [next] at head
    cases rest with
    | nil => cases head
    | cons n ys =>
      cases head
      exact ⟨ys, rfl⟩
  have armed : r.tm.queue.Armed pTimer := ok.mem_iff_armed.mp (by simp)
  have taken : expire r.tm.queue pTimer = takenOff r.tm.queue pTimer .expiredDeliver := by
    rw [expire, unlink_setState, takenOff]
    simp [TmTimerQueue.setState, withState]
  have others : ∀ a, a ≠ pTimer →
      (takenOff r.tm.queue pTimer .expiredDeliver).timer a = r.tm.queue.timer a :=
    fun a other => setTimer_of_ne other
  have notArmed : ¬ (takenOff r.tm.queue pTimer .expiredDeliver).Armed pTimer := by
    rw [TmTimerQueue.Armed, takenOff_state]
    decide
  have expires : ((takenOff r.tm.queue pTimer .expiredDeliver).timer pTimer).u64Expire =
      (r.tm.queue.timer pTimer).u64Expire := by
    show ((r.tm.queue.setTimer pTimer _).timer pTimer).u64Expire = _
    rw [setTimer_self]
    rfl
  refine ⟨armed, ?_⟩
  rw [taken]
  refine ⟨⟨front, ys, ?_, ok.list.around.2.symm, ?_⟩, offSchedule, ?_, ?_⟩
  · refine ok.unlink rfl ?_
    rw [armed]
    rfl
  · intro a armed₀ expired untouched
    obtain ⟨same, state⟩ := remaining a armed₀ expired untouched.of_snoc
    by_cases this : a = pTimer
    · subst this
      refine ⟨expires.trans same, .inr ⟨notArmed, ?_⟩⟩
      rcases state with ⟨-, none⟩ | ⟨idle, -⟩
      · rw [count_append, none, count_singleton_self]
      · exact absurd armed idle
    · have notThis : RunEvent.deliver pTimer ≠ RunEvent.deliver a := by
        rintro ⟨⟩
        exact this rfl
      dsimp only
      rw [TmTimerQueue.Armed, others a this, count_append,
        count_singleton, if_neg (by simpa using notThis), Nat.add_zero]
      refine ⟨same, state.imp (fun coming => ⟨?_, coming.2⟩) id⟩
      exact (mem_cons.mp coming.1).resolve_left this
  · refine noneHalted.snoc fun a same => ?_
    cases same
    exact fun halted => quiet pTimer halted armed
  · intro a halted
    rcases halted_snoc halted with same | ⟨halted, -⟩
    · cases same
    · by_cases this : a = pTimer
      · rw [this]
        exact notArmed
      · rw [TmTimerQueue.Armed]
        dsimp only
        rw [others a this]
        exact quiet a halted

/-- A call of the callback. -/
def QueueRun.call (r : QueueRun cTimers) (call : EmtCall cTimers) : QueueRun cTimers :=
  { r with tm := call.apply r.tm, events := r.events ++ [.call call] }

theorem Serving.call (serving : Serving tm₀ u64Now r) {call : EmtCall cTimers}
    (notNext : r.pNext ≠ some call.pTimer) : Serving tm₀ u64Now (r.call call) := by
  obtain ⟨⟨front, rest, ok, head, remaining⟩, offSchedule, noneHalted, quiet⟩ := serving
  obtain ⟨⟨l', moves⟩, stopped⟩ :
      (∃ l', Moves r.tm.queue (call.apply r.tm).queue call.pTimer (front ++ rest) l') ∧
        ∀ a, call = .stop a → ¬ (call.apply r.tm).queue.Armed a := by
    cases call with
    | set pTimer u64Expire => exact ⟨set_moves u64Expire ok offSchedule, nofun⟩
    | stop pTimer =>
      refine ⟨(stop_moves ok offSchedule).1, ?_⟩
      rintro _ ⟨⟩
      exact (stop_moves ok offSchedule).2
  obtain ⟨front', rest', rfl, head', behind⟩ :=
    behind_next moves.ok.list.nodup moves.order (head ▸ notNext)
  refine ⟨⟨front', rest', moves.ok, head'.trans head, ?_⟩, moves.offSchedule,
    noneHalted.snoc nofun, ?_⟩
  · intro a armed₀ expired untouched
    have other : a ≠ call.pTimer :=
      fun same => untouched call (mem_append_right _ (mem_singleton_self _)) same.symm
    obtain ⟨same, state⟩ := remaining a armed₀ expired untouched.of_snoc
    obtain ⟨sameState, sameExpire⟩ := moves.others a other
    dsimp only [QueueRun.call]
    rw [TmTimerQueue.Armed, sameState, count_append, count_singleton,
      if_neg (by simp), Nat.add_zero]
    exact ⟨sameExpire.trans same, state.imp (fun coming => ⟨behind a other coming.1, coming.2⟩) id⟩
  · intro a halted
    rcases halted_snoc halted with same | ⟨halted, noSet⟩
    · exact stopped a (by simpa using same)
    · by_cases this : a = call.pTimer
      · cases call with
        | set pTimer u64Expire => exact absurd (this ▸ rfl) (noSet u64Expire)
        | stop pTimer => exact stopped a (this ▸ rfl)
      · show ¬ (call.apply r.tm).queue.Armed a
        rw [TmTimerQueue.Armed, (moves.others a this).1]
        exact quiet a halted

theorem Serving.calls {calls : List (EmtCall cTimers)} (serving : Serving tm₀ u64Now r)
    (notNext : ∀ call ∈ calls, r.pNext ≠ some call.pTimer) :
    Serving tm₀ u64Now (calls.foldl QueueRun.call r) := by
  induction calls generalizing r with
  | nil => exact serving
  | cons call calls ih =>
    exact ih (serving.call (notNext call (mem_cons_self ..)))
      fun later member => notNext later (mem_cons_of_mem call member)

/-- The calls of a callback one after the other. -/
theorem foldl_call (calls : List (EmtCall cTimers)) : calls.foldl QueueRun.call r =
      { tm := calls.foldl EmtCall.apply r.tm
        pNext := r.pNext
        events := r.events ++ calls.map .call } := by
  induction calls generalizing r with
  | nil => simp
  | cons call calls ih =>
    rw [foldl_cons, ih]
    simp [QueueRun.call]

theorem Serving.finish (serving : Serving tm₀ u64Now r) (pTimer : Fin cTimers) : Serving tm₀ u64Now
      { r with tm := { r.tm with queue := finishDelivery r.tm.queue pTimer } } := by
  obtain ⟨⟨front, rest, ok, head, remaining⟩, offSchedule, noneHalted, quiet⟩ := serving
  rw [finishDelivery, tmTimerTry]
  split
  case isFalse => exact ⟨⟨front, rest, ok, head, remaining⟩, offSchedule, noneHalted, quiet⟩
  case isTrue state =>
    have armed : ∀ a, (r.tm.queue.setState pTimer .stopped).Armed a ↔ r.tm.queue.Armed a := by
      intro a
      rw [TmTimerQueue.Armed, TmTimerQueue.Armed, TmTimerQueue.setState]
      by_cases this : a = pTimer
      · rw [this, setTimer_self, state]
        exact iff_of_false (show TmTimerState.stopped ≠ .active by decide) (by decide)
      · rw [setTimer_of_ne this]
    have expires : ∀ a, ((r.tm.queue.setState pTimer .stopped).timer a).u64Expire =
        (r.tm.queue.timer a).u64Expire := by
      intro a
      rw [TmTimerQueue.setState]
      by_cases this : a = pTimer
      · rw [this, setTimer_self]
      · rw [setTimer_of_ne this]
    refine ⟨⟨front, rest, ?_, head, ?_⟩, offSchedule, noneHalted, fun a halted => ?_⟩
    · refine ok.post (by rw [state]; rfl) (fun held => by cases held) (fun a => ?_) nodup_nil
      simp [TmTimerState.isScheduled]
    · intro a armed₀ expired untouched
      dsimp only
      rw [expires, armed]
      exact remaining a armed₀ expired untouched
    · rw [armed]
      exact quiet a halted

/-- One round of the loop. -/
theorem Serving.step {r' : QueueRun cTimers} {calls : List (EmtCall cTimers)}
    (serving : Serving tm₀ u64Now r) (leaves : LeavesNext u64Now r calls)
    (step : RoundStep u64Now r calls r') : Serving tm₀ u64Now r' := by
  obtain ⟨pTimer, due, rfl⟩ := Option.map_eq_some_iff.mp step
  have next := (Option.filter_eq_some_iff.mp due).1
  obtain ⟨armed, delivered⟩ := serving.deliver next
  have state : (r.tm.queue.timer pTimer).enmState = .active := armed
  have called := (delivered.calls (leaves pTimer due)).finish pTimer
  rw [foldl_call] at called
  rw [QueueRun.round, if_pos state]
  simpa using called

end Serving

section Runs

/-- As long as no callback touches the timer the loop remembers: the active list is in
order, no timer is delivered after it has been stopped, and when the loop ends every timer
that was expired at its start, and that no callback has touched, has been delivered once. -/
theorem queueRun_serves {tm : TmState cTimers} {l : List (Fin cTimers)} {u64Now : Nat}
    {r : QueueRun cTimers} {labels : List (List (EmtCall cTimers))} (ok : QueueOk tm.queue l [])
    (offSchedule : tm.queue.offSchedule = [])
    (run : Run (Guarded (LeavesNext u64Now) (RoundStep u64Now)) (.start tm) labels r) :
    Settled r.tm.queue ∧ NoneHalted r.events ∧
      (r.due u64Now = none → ∀ a, tm.queue.Armed a → (tm.queue.timer a).u64Expire ≤ u64Now →
        Untouched r.events a → r.events.count (.deliver a) = 1) := by
  have serving := run.invariant (Serving tm u64Now)
    (fun serving step => serving.step step.1 step.2) (.start ok offSchedule)
  obtain ⟨⟨front, rest, ok, head, remaining⟩, -, noneHalted, -⟩ := serving
  refine ⟨ok.settled, noneHalted, fun ended a armed expired untouched => ?_⟩
  obtain ⟨same, ⟨coming, -⟩ | ⟨-, once⟩⟩ := remaining a armed expired untouched
  · -- the loop would go on with the head of the rest
    cases rest with
    | nil => cases coming
    | cons n ys =>
      have first : (r.tm.queue.timer n).u64Expire ≤ (r.tm.queue.timer a).u64Expire := by
        rcases mem_cons.mp coming with rfl | later
        · exact le_rfl
        · have sorted := (pairwise_append.mp ok.sorted).2.1
          exact (pairwise_cons.mp sorted).1 a later (ok.mem_iff_armed.mp (by simp))
            (ok.mem_iff_armed.mp (by simp [later]))
      rw [QueueRun.due, ← head] at ended
      simp only [head?_cons, Option.filter_eq_none_iff, Option.some.injEq,
        decide_eq_true_eq, forall_eq'] at ended
      exact absurd (first.trans (same.le.trans expired)) ended
  · exact once

/-- Calls on an EMT with no run under way. -/
theorem calls_settle {tm : TmState cTimers} {l : List (Fin cTimers)}
    (calls : List (EmtCall cTimers)) (ok : QueueOk tm.queue l [])
    (offSchedule : tm.queue.offSchedule = []) :
    (∃ l', QueueOk (calls.foldl EmtCall.apply tm).queue l' []) ∧
      (calls.foldl EmtCall.apply tm).queue.offSchedule = [] := by
  induction calls generalizing tm l with
  | nil => exact ⟨⟨l, ok⟩, offSchedule⟩
  | cons call calls ih =>
    obtain ⟨l', moves⟩ : ∃ l', Moves tm.queue (call.apply tm).queue call.pTimer l l' := by
      cases call with
      | set pTimer u64Expire => exact set_moves u64Expire ok offSchedule
      | stop pTimer => exact (stop_moves ok offSchedule).1
    exact ih moves.ok moves.offSchedule

/-- Three timers, armed at 10, 20 and 30. -/
def armedTm : TmState 3 :=
  [EmtCall.set 0 10, .set 1 20, .set 2 30].foldl EmtCall.apply (stoppedTm 3)

/-- The first callback re-arms its own timer, the second stops the first timer again. -/
theorem queueRun_serves_armed :
    ∃ r, Run (RoundStep 25) (.start armedTm) [[.set 0 35], [.stop 0]] r ∧ r.due 25 = none ∧
      Settled r.tm.queue ∧ NoneHalted r.events ∧
      (r.due 25 = none → ∀ a, armedTm.queue.Armed a → (armedTm.queue.timer a).u64Expire ≤ 25 →
        Untouched r.events a → r.events.count (.deliver a) = 1) := by
  obtain ⟨⟨l, ok⟩, offSchedule⟩ := calls_settle
    [.set 0 10, .set 1 20, .set 2 30] (stoppedTm_idle 3).ok rfl
  have run : Run (Guarded (LeavesNext 25) (RoundStep 25)) (.start armedTm)
      [[.set 0 35], [.stop 0]] _ :=
    .next ⟨by unfold LeavesNext; decide, rfl⟩ (.next ⟨by unfold LeavesNext; decide, rfl⟩ (.done _))
  exact ⟨_, run.mono And.right, by decide, queueRun_serves ok offSchedule run⟩

/-- The first callback stops the second timer. The loop ends with it, and the third timer,
expired and armed as before, is not delivered. -/
theorem queueRun_skips : (∃ l, QueueOk armedTm.queue l []) ∧ armedTm.queue.offSchedule = [] ∧
    ∃ r, Run (RoundStep 1000) (.start armedTm) [[.stop 1], []] r ∧ r.due 1000 = none ∧
      armedTm.queue.Armed 2 ∧ (armedTm.queue.timer 2).u64Expire ≤ 1000 ∧
      Untouched r.events 2 ∧ r.events.count (.deliver 2) = 0 := by
  obtain ⟨ok, offSchedule⟩ := calls_settle
    [.set 0 10, .set 1 20, .set 2 30] (stoppedTm_idle 3).ok rfl
  refine ⟨ok, offSchedule, _, .next rfl (.next rfl (.done _)), by decide, by decide, by decide,
    ?_, by decide⟩
  intro call member
  have events : RunEvent.call call ∈ [RunEvent.deliver 0, .call (.stop (1 : Fin 3))] := member
  simp only [mem_cons, reduceCtorEq, RunEvent.call.injEq, not_mem_nil, or_false,
    false_or] at events
  rw [events]
  decide

end Runs

end VBox.Vmm.Tm
