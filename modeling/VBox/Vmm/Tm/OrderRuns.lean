import VBox.Lib.Run
import VBox.Vmm.Tm.Order

/-!
Runs of calls and scheduling passes.

`run_ordered` says what the active list looks like after a pass, for every run in which
no insertion is misled by a timer that waits to be moved. `rearm_misplaces` is a run of
four calls in which one is: the list comes out of the pass in the wrong order.
-/

namespace VBox.Vmm.Tm

open VBox.Lib VBox.Lib.Links List

variable {cTimers : Nat}

section Pass

variable {pQueue pQueue' : TmTimerQueue cTimers} {pTimer : Fin cTimers}
  {l l' waiting : List (Fin cTimers)}

/-- A pass inserts the timer into the active list. -/
def Inserts (pQueue : TmTimerQueue cTimers) (a : Fin cTimers) : Prop :=
  (pQueue.timer a).enmState = .pendingSchedule ∨ (pQueue.timer a).enmState = .pendingReschedule

instance (pQueue : TmTimerQueue cTimers) (a : Fin cTimers) : Decidable (Inserts pQueue a) :=
  inferInstanceAs (Decidable (_ ∨ _))

/-- What scheduling one timer leaves alone. A timer that stands before one that expires
earlier stood there before. -/
structure Scheduled (pQueue pQueue' : TmTimerQueue cTimers) (pTimer : Fin cTimers)
    (l l' : List (Fin cTimers)) : Prop where
  offSchedule : pQueue'.offSchedule = pQueue.offSchedule
  expire : ∀ a, (pQueue'.timer a).u64Expire = (pQueue.timer a).u64Expire
  state : ∀ a, a ≠ pTimer → (pQueue'.timer a).enmState = (pQueue.timer a).enmState
  older : ∀ a c, a ≠ pTimer → [a, c].Sublist l' →
    (pQueue.timer c).u64Expire < (pQueue.timer a).u64Expire → c ≠ pTimer ∧ [a, c].Sublist l

theorem scheduled_placed {t : TmTimer} (fresh : pTimer ∉ l)
    (expire : t.u64Expire = (pQueue.timer pTimer).u64Expire) :
    Scheduled pQueue (tmTimerQueueLinkActive (pQueue.setTimer pTimer t) pTimer t.u64Expire) pTimer
      l (placed pQueue pTimer t.u64Expire l) := by
  constructor
  · rw [tmTimerQueueLinkActive_offSchedule]
    rfl
  · intro a
    rw [tmTimerQueueLinkActive_timer]
    by_cases same : a = pTimer
    · rw [same, setTimer_self, expire]
    · rw [setTimer_of_ne same]
  · intro a other
    rw [tmTimerQueueLinkActive_timer, setTimer_of_ne other]
  · intro a c other before earlier
    have notC : c ≠ pTimer := by
      rintro rfl
      have later := expires_before_placed fresh before
      rw [expire] at later
      exact absurd earlier (Nat.not_lt.mpr later)
    exact ⟨notC, before_of_placed before other notC⟩

theorem scheduleOne_returns {round : TmTimerQueue cTimers × Bool}
    (first : scheduleRound pQueue pTimer = round) (returns : round.2 = true) :
    tmTimerQueueScheduleOne pQueue pTimer = round.1 := by
  obtain ⟨pQueue', _⟩ := round
  cases returns
  rw [tmTimerQueueScheduleOne, scheduleRounds, first]

/-- The timer with a new state. -/
def withState (pQueue : TmTimerQueue cTimers) (pTimer : Fin cTimers) (enmState : TmTimerState) :
    TmTimer :=
  { pQueue.timer pTimer with enmState := enmState }

theorem scheduleInsert_eq (state : (pQueue.timer pTimer).enmState = .pendingSchedule) :
    scheduleInsert pQueue pTimer =
      (tmTimerQueueLinkActive (pQueue.setTimer pTimer (withState pQueue pTimer .active)) pTimer
        (withState pQueue pTimer .active).u64Expire, true) := by
  rw [scheduleInsert, tmTimerTry, if_pos state]
  simp [TmTimerQueue.setState, withState]

theorem scheduleStop_eq (state : (pQueue.timer pTimer).enmState = .pendingStopSchedule) :
    scheduleStop pQueue pTimer =
      (pQueue.setTimer pTimer (withState pQueue pTimer .stopped), true) := by
  rw [scheduleStop, tmTimerTry, if_pos state]
  rfl

/-- The queue with the timer off the active list and in a new state. -/
def takenOff (pQueue : TmTimerQueue cTimers) (pTimer : Fin cTimers) (enmState : TmTimerState) :
    TmTimerQueue cTimers :=
  tmTimerQueueUnlinkActive (pQueue.setTimer pTimer (withState pQueue pTimer enmState)) pTimer

variable {enmState : TmTimerState}

theorem takenOff_state : ((takenOff pQueue pTimer enmState).timer pTimer).enmState = enmState :=
  congrArg TmTimer.enmState setTimer_self

theorem scheduleOne_pendingSchedule (state : (pQueue.timer pTimer).enmState = .pendingSchedule) :
    tmTimerQueueScheduleOne pQueue pTimer = (scheduleInsert pQueue pTimer).1 := by
  have round : scheduleRound pQueue pTimer = scheduleInsert pQueue pTimer := by
    rw [scheduleRound, state]
  exact scheduleOne_returns round (by rw [scheduleInsert_eq state])

theorem scheduleOne_pendingStopSchedule
    (state : (pQueue.timer pTimer).enmState = .pendingStopSchedule) :
    tmTimerQueueScheduleOne pQueue pTimer = (scheduleStop pQueue pTimer).1 := by
  have round : scheduleRound pQueue pTimer = scheduleStop pQueue pTimer := by
    rw [scheduleRound, state]
  exact scheduleOne_returns round (by rw [scheduleStop_eq state])

theorem scheduleOne_pendingReschedule
    (state : (pQueue.timer pTimer).enmState = .pendingReschedule) :
    tmTimerQueueScheduleOne pQueue pTimer =
      (scheduleInsert (takenOff pQueue pTimer .pendingSchedule) pTimer).1 := by
  have round : scheduleRound pQueue pTimer =
      scheduleInsert (takenOff pQueue pTimer .pendingSchedule) pTimer := by
    rw [scheduleRound, state]
    dsimp only
    rw [tmTimerTry, if_pos state]
    rfl
  exact scheduleOne_returns round (by rw [scheduleInsert_eq takenOff_state])

theorem scheduleOne_pendingStop (state : (pQueue.timer pTimer).enmState = .pendingStop) :
    tmTimerQueueScheduleOne pQueue pTimer =
      (scheduleStop (takenOff pQueue pTimer .pendingStopSchedule) pTimer).1 := by
  have round : scheduleRound pQueue pTimer =
      scheduleStop (takenOff pQueue pTimer .pendingStopSchedule) pTimer := by
    rw [scheduleRound, state]
    dsimp only
    rw [tmTimerTry, if_pos state]
    rfl
  exact scheduleOne_returns round (by rw [scheduleStop_eq takenOff_state])

section

variable (ok : QueueOk pQueue l (pTimer :: waiting))

include ok

/-- The first timer of the batch, once it is off the active list, is inserted. -/
theorem insert_ok (state : (pQueue.timer pTimer).enmState = .pendingSchedule)
    (clear : Clear pQueue l (pQueue.timer pTimer).u64Expire) :
    ∃ l', QueueOk (scheduleInsert pQueue pTimer).1 l' waiting ∧
      Scheduled pQueue (scheduleInsert pQueue pTimer).1 pTimer l l' := by
  have once := nodup_cons.mp ok.once
  have unlinked : ¬ (pQueue.timer pTimer).enmState.isLinked := by
    rw [state]
    decide
  have fresh : pTimer ∉ l := fun member => unlinked ((ok.linked pTimer).mp member)
  rw [scheduleInsert_eq state]
  refine ⟨_, ok.link unlinked rfl clear ?_ once.2, scheduled_placed fresh rfl⟩
  intro a
  rw [mem_cons]
  constructor
  · intro member
    exact ⟨fun same => once.1 (same ▸ member), .inr member⟩
  · rintro ⟨other, same | member⟩
    · exact absurd same other
    · exact member

/-- The first timer of the batch, once it is off the active list, is stopped. -/
theorem stop_ok (state : (pQueue.timer pTimer).enmState = .pendingStopSchedule) :
    QueueOk (scheduleStop pQueue pTimer).1 l waiting ∧
      Scheduled pQueue (scheduleStop pQueue pTimer).1 pTimer l l := by
  have once := nodup_cons.mp ok.once
  have fresh : pTimer ∉ l := by
    intro member
    have linked := (ok.linked pTimer).mp member
    rw [state] at linked
    cases linked
  rw [scheduleStop_eq state]
  constructor
  · refine ok.post (by rw [state]; rfl) (fun same => by cases same) ?_ once.2
    intro a
    split
    case isTrue same =>
      rw [same]
      exact ⟨fun member => absurd member once.1, fun stopped => by cases stopped⟩
    case isFalse other => simp [other]
  · constructor
    · rfl
    · intro a
      by_cases same : a = pTimer
      · rw [same, setTimer_self]
        rfl
      · rw [setTimer_of_ne same]
    · exact fun a other => by rw [setTimer_of_ne other]
    · intro a c _ before _
      refine ⟨?_, before⟩
      rintro rfl
      exact fresh (before.subset (by simp))

/-- Taking the first timer of the batch off the active list. -/
theorem unlink_ok (member : pTimer ∈ l) (linked : enmState.isLinked = false)
    (scheduled : enmState.isScheduled) :
    ∃ l', QueueOk (takenOff pQueue pTimer enmState) l' (pTimer :: waiting) ∧ l'.Sublist l := by
  obtain ⟨xs, ys, rfl⟩ := append_of_mem member
  have waits := (ok.scheduled pTimer).mp (mem_cons_self ..)
  exact ⟨xs ++ ys, ok.unlink linked (scheduled.trans waits.symm),
    (sublist_cons_self pTimer ys).append_left xs⟩

end

theorem Scheduled.of_unlinked (sub : l'.Sublist l) {l'' : List (Fin cTimers)}
    (later : Scheduled (takenOff pQueue pTimer enmState) pQueue' pTimer l' l'') :
    Scheduled pQueue pQueue' pTimer l l'' := by
  have expire : ∀ a, ((takenOff pQueue pTimer enmState).timer a).u64Expire =
      (pQueue.timer a).u64Expire := by
    intro a
    show ((pQueue.setTimer pTimer (withState pQueue pTimer enmState)).timer a).u64Expire = _
    by_cases same : a = pTimer
    · rw [same, setTimer_self]
      rfl
    · rw [setTimer_of_ne same]
  constructor
  · exact later.offSchedule
  · exact fun a => (later.expire a).trans (expire a)
  · intro a other
    rw [later.state a other]
    show ((pQueue.setTimer pTimer (withState pQueue pTimer enmState)).timer a).enmState = _
    rw [setTimer_of_ne other]
  · intro a c other before earlier
    rw [← expire a, ← expire c] at earlier
    obtain ⟨notC, before⟩ := later.older a c other before earlier
    exact ⟨notC, before.trans sub⟩

/-- Nothing on the list gets in the way that was not there before. -/
theorem Clear.of_unlinked (sub : l'.Sublist l) (fresh : pTimer ∉ l') {u64Expire : Nat}
    (clear : Clear pQueue l u64Expire) : Clear (takenOff pQueue pTimer enmState) l' u64Expire := by
  intro a c before notArmed armed earlier
  have inA : a ∈ l' := before.subset (by simp)
  have inC : c ∈ l' := before.subset (by simp)
  have notA : a ≠ pTimer := fun same => fresh (same ▸ inA)
  have notC : c ≠ pTimer := fun same => fresh (same ▸ inC)
  have same : ∀ b, b ≠ pTimer →
      (pQueue.setTimer pTimer (withState pQueue pTimer enmState)).timer b = pQueue.timer b :=
    fun b other => setTimer_of_ne other
  rw [TmTimerQueue.Armed] at notArmed armed
  change ¬ ((pQueue.setTimer pTimer (withState pQueue pTimer enmState)).timer a).enmState = _
    at notArmed
  change ((pQueue.setTimer pTimer (withState pQueue pTimer enmState)).timer c).enmState = _
    at armed
  change ((pQueue.setTimer pTimer (withState pQueue pTimer enmState)).timer c).u64Expire < _
    at earlier
  show ((pQueue.setTimer pTimer (withState pQueue pTimer enmState)).timer a).u64Expire ≤ _
  rw [same a notA] at notArmed ⊢
  rw [same c notC] at armed earlier
  exact clear a c (before.trans sub) notArmed armed earlier

/-- Scheduling the first timer of the batch. -/
theorem scheduleOne_ok (ok : QueueOk pQueue l (pTimer :: waiting))
    (clear : Inserts pQueue pTimer → Clear pQueue l (pQueue.timer pTimer).u64Expire) :
    ∃ l', QueueOk (tmTimerQueueScheduleOne pQueue pTimer) l' waiting ∧
      Scheduled pQueue (tmTimerQueueScheduleOne pQueue pTimer) pTimer l l' := by
  have waits := (ok.scheduled pTimer).mp (mem_cons_self ..)
  cases state : (pQueue.timer pTimer).enmState <;> rw [state] at waits
  case pendingSchedule =>
    rw [scheduleOne_pendingSchedule state]
    exact insert_ok ok state (clear (.inl state))
  case pendingStopSchedule =>
    rw [scheduleOne_pendingStopSchedule state]
    exact ⟨l, stop_ok ok state⟩
  case pendingReschedule =>
    have member : pTimer ∈ l := (ok.linked pTimer).mpr (by rw [state]; rfl)
    have scheduled : TmTimerState.pendingSchedule.isScheduled := rfl
    obtain ⟨l', ok', sub⟩ := unlink_ok ok member rfl scheduled
    have fresh : pTimer ∉ l' := by
      intro member'
      have linked := (ok'.linked pTimer).mp member'
      rw [takenOff_state] at linked
      cases linked
    have expire : ((takenOff pQueue pTimer .pendingSchedule).timer pTimer).u64Expire =
        (pQueue.timer pTimer).u64Expire := by
      show ((pQueue.setTimer pTimer _).timer pTimer).u64Expire = _
      rw [setTimer_self]
      rfl
    obtain ⟨l'', ok'', later⟩ := insert_ok ok' takenOff_state <| by
      rw [expire]
      exact (clear (.inr state)).of_unlinked sub fresh
    rw [scheduleOne_pendingReschedule state]
    exact ⟨l'', ok'', later.of_unlinked sub⟩
  case pendingStop =>
    have member : pTimer ∈ l := (ok.linked pTimer).mpr (by rw [state]; rfl)
    have scheduled : TmTimerState.pendingStopSchedule.isScheduled := rfl
    obtain ⟨l', ok', sub⟩ := unlink_ok ok member rfl scheduled
    obtain ⟨ok'', later⟩ := stop_ok ok' takenOff_state
    rw [scheduleOne_pendingStop state]
    exact ⟨l', ok'', later.of_unlinked sub⟩
  all_goals cases waits

/-- A whole batch. `l₀` and `armed₀` are the list and the armed timers before the pass: a
timer of the batch can mislead the search only about them. -/
theorem pass_ok {l₀ : List (Fin cTimers)} {armed₀ : Fin cTimers → Prop}
    (ok : QueueOk pQueue l waiting) (aged : ∀ a c, a ∈ waiting → [a, c].Sublist l → pQueue.Armed c →
      (pQueue.timer c).u64Expire < (pQueue.timer a).u64Expire → [a, c].Sublist l₀ ∧ armed₀ c)
    (clear : ∀ x a c, [x, a].Sublist waiting → Inserts pQueue x → [a, c].Sublist l₀ → armed₀ c →
      ¬ ((pQueue.timer c).u64Expire < (pQueue.timer x).u64Expire ∧
        (pQueue.timer x).u64Expire < (pQueue.timer a).u64Expire)) :
    ∃ l', QueueOk (waiting.foldl tmTimerQueueScheduleOne pQueue) l' [] ∧
      (waiting.foldl tmTimerQueueScheduleOne pQueue).offSchedule = pQueue.offSchedule := by
  induction waiting generalizing pQueue l with
  | nil => exact ⟨l, ok, rfl⟩
  | cons t waiting ih =>
    obtain ⟨notWaiting, -⟩ := nodup_cons.mp ok.once
    have clearOne : Inserts pQueue t → Clear pQueue l (pQueue.timer t).u64Expire := by
      intro inserts a c before notArmed armed earlier
      by_contra misled
      rw [Nat.not_le] at misled
      have inList : a ∈ l := before.subset (by simp)
      have waits : a ∈ t :: waiting := by
        rw [ok.scheduled a]
        have linked := (ok.linked a).mp inList
        revert linked notArmed
        rw [TmTimerQueue.Armed]
        cases (pQueue.timer a).enmState <;> simp [TmTimerState.isLinked, TmTimerState.isScheduled]
      have later : a ∈ waiting := by
        rcases mem_cons.mp waits with rfl | later
        · exact absurd misled (Nat.lt_irrefl _)
        · exact later
      obtain ⟨before₀, armed₀⟩ := aged a c waits before armed (earlier.trans misled)
      exact clear t a c ((singleton_sublist.mpr later).cons_cons t) inserts before₀ armed₀
        ⟨earlier, misled⟩
    obtain ⟨l', ok', step⟩ := scheduleOne_ok ok clearOne
    have other : ∀ a ∈ waiting, a ≠ t := fun a member same => notWaiting (same ▸ member)
    obtain ⟨l'', ok'', offSchedule⟩ := ih ok' (by
      intro a c waits before armed earlier
      rw [step.expire a, step.expire c] at earlier
      obtain ⟨notC, before⟩ := step.older a c (other a waits) before earlier
      rw [TmTimerQueue.Armed, step.state c notC] at armed
      exact aged a c (mem_cons_of_mem t waits) before armed earlier) (by
      intro x a c order inserts before armed
      rw [step.expire x, step.expire a, step.expire c]
      rw [Inserts, step.state x (other x (order.subset (by simp)))] at inserts
      exact clear x a c (order.trans (sublist_cons_self t waiting)) inserts before armed)
    exact ⟨l'', ok'', offSchedule.trans step.offSchedule⟩

end Pass

section Runs

/-- No posted timer misleads an insertion of a pass: none that is handed out behind the
inserted timer `x` stands before an armed one that expires earlier than `x`, with an
expire time that has since been set later than that of `x`. -/
def PassUnmisled (pQueue : TmTimerQueue cTimers) : Prop :=
  ∀ x a c, [x, a].Sublist pQueue.offSchedule → Inserts pQueue x → [a, c].Sublist pQueue.active →
    pQueue.Armed c → ¬ ((pQueue.timer c).u64Expire < (pQueue.timer x).u64Expire ∧
      (pQueue.timer x).u64Expire < (pQueue.timer a).u64Expire)

instance (pQueue : TmTimerQueue cTimers) : Decidable (PassUnmisled pQueue) :=
  inferInstanceAs (Decidable (∀ _ _ _, _))

/-- The active list after a pass: exactly the armed timers, well linked, in the order of
their expire times. -/
structure Settled (pQueue : TmTimerQueue cTimers) : Prop where
  linked : Represents pQueue.links pQueue.active
  armed : ∀ a, a ∈ pQueue.active ↔ pQueue.Armed a
  sorted : pQueue.active.Pairwise fun a c =>
    (pQueue.timer a).u64Expire ≤ (pQueue.timer c).u64Expire
  head : pQueue.u64Expire = match pQueue.active.head? with
    | some a => (pQueue.timer a).u64Expire
    | none => int64Max

inductive TmCall (cTimers : Nat) where
  | set (pTimer : Fin cTimers) (u64Expire : Nat) (fLock : Bool)
  | stop (pTimer : Fin cTimers)
  | schedule

def TmCall.apply (tm : TmState cTimers) : TmCall cTimers → TmState cTimers
  | set pTimer u64Expire fLock => (tmTimerSet fLock tm pTimer u64Expire).1
  | stop pTimer => (tmTimerStop tm pTimer).1
  | schedule => { tm with queue := tmTimerQueueSchedule tm.queue }

def CallStep (tm : TmState cTimers) (call : TmCall cTimers) (tm' : TmState cTimers) : Prop :=
  tm' = call.apply tm

/-- No insertion of the call is misled. -/
def Unmisled (tm : TmState cTimers) : TmCall cTimers → Prop
  | .set pTimer u64Expire fLock =>
      (startsInactive (tm.queue.timer pTimer) && fLock) = true →
        Clear tm.queue tm.queue.active u64Expire
  | .stop _ => True
  | .schedule => PassUnmisled tm.queue

instance (tm : TmState cTimers) : DecidablePred (Unmisled tm)
  | .set .. => inferInstanceAs (Decidable (_ → _))
  | .stop _ => inferInstanceAs (Decidable True)
  | .schedule => inferInstanceAs (Decidable (PassUnmisled tm.queue))

/-- A queue on which no timer has been armed. -/
structure Idle (pQueue : TmTimerQueue cTimers) : Prop where
  links : pQueue.links = Links.empty
  offSchedule : pQueue.offSchedule = []
  u64Expire : pQueue.u64Expire = int64Max
  timers : ∀ a, (pQueue.timer a).enmState.isLinked = false ∧
    (pQueue.timer a).enmState.isScheduled = false

variable {tm tm' : TmState cTimers} {pQueue pQueue' : TmTimerQueue cTimers}
  {pTimer : Fin cTimers} {l : List (Fin cTimers)}

theorem Idle.ok (idle : Idle pQueue) : QueueOk pQueue [] pQueue.offSchedule where
  list := idle.links ▸ represents_empty
  linked := fun a => by simp [(idle.timers a).1]
  scheduled := fun a => by simp [(idle.timers a).2, idle.offSchedule]
  once := by rw [idle.offSchedule]; exact nodup_nil
  sorted := .nil
  head := idle.u64Expire

theorem QueueOk.settled (ok : QueueOk pQueue l []) : Settled pQueue := by
  have active := active_eq ok.list
  have armed : ∀ a, a ∈ l ↔ pQueue.Armed a := by
    intro a
    have notScheduled := ok.scheduled a
    rw [ok.linked a]
    revert notScheduled
    rw [TmTimerQueue.Armed]
    cases (pQueue.timer a).enmState <;> simp [TmTimerState.isLinked, TmTimerState.isScheduled]
  constructor
  · rw [active]
    exact ok.list
  · rw [active]
    exact armed
  · rw [active]
    exact ok.sorted.imp_of_mem fun {a c} inA inC ordered =>
      ordered ((armed a).mp inA) ((armed c).mp inC)
  · have head := ok.head
    rw [active]
    cases l with
    | nil => exact head
    | cons a l => exact head ((armed a).mp (mem_cons_self ..))

variable {u64Expire : Nat}

section

variable (ok : QueueOk pQueue l pQueue.offSchedule)

include ok

theorem QueueOk.posts (posts : PostsOnly pQueue pTimer u64Expire pQueue') :
    QueueOk pQueue' l pQueue'.offSchedule := by
  rcases posts with rfl | ⟨new, posts, rfl⟩
  · exact ok
  · rw [posted]
    split
    case isTrue scheduled =>
      refine ok.post posts.linked posts.notActive ?_ ok.once
      intro a
      split
      case isTrue same =>
        rw [same]
        exact ⟨fun _ => posts.scheduled, fun _ => (ok.scheduled pTimer).mpr scheduled⟩
      case isFalse => rfl
    case isFalse notScheduled =>
      have fresh : pTimer ∉ pQueue.offSchedule :=
        fun member => notScheduled ((ok.scheduled pTimer).mp member)
      have ok' : QueueOk (pQueue.setTimer pTimer
          { pQueue.timer pTimer with enmState := new, u64Expire := u64Expire }) l
          (pTimer :: pQueue.offSchedule) := by
        refine ok.post posts.linked posts.notActive ?_ (nodup_cons.mpr ⟨fresh, ok.once⟩)
        intro a
        rw [mem_cons]
        split
        case isTrue same => simp [same, posts.scheduled]
        case isFalse other => simp [other]
      exact ok'.congr rfl rfl fun _ => ⟨rfl, rfl⟩

theorem QueueOk.start (starts : startsInactive (pQueue.timer pTimer))
    (clear : Clear pQueue l u64Expire) :
    ∃ l', QueueOk (tmTimerSetOptimizedStart (pQueue.setState pTimer .active) pTimer u64Expire) l'
      (tmTimerSetOptimizedStart (pQueue.setState pTimer .active) pTimer u64Expire).offSchedule := by
  have idle : (pQueue.timer pTimer).enmState.isLinked = false ∧
      (pQueue.timer pTimer).enmState.isScheduled = false := by
    rw [startsInactive, Bool.or_eq_true, Bool.and_eq_true, decide_eq_true_eq,
      decide_eq_true_eq] at starts
    rcases starts with state | ⟨state, -⟩ <;> rw [state] <;> exact ⟨rfl, rfl⟩
  have fresh : pTimer ∉ pQueue.offSchedule := by
    rw [ok.scheduled pTimer, idle.2]
    exact Bool.false_ne_true
  have linked : QueueOk (tmTimerQueueLinkActive (pQueue.setTimer pTimer
      { pQueue.timer pTimer with enmState := .active, u64Expire := u64Expire }) pTimer u64Expire)
      (placed pQueue pTimer u64Expire l) pQueue.offSchedule := by
    refine ok.link (by rw [idle.1]; exact Bool.false_ne_true) rfl clear ?_ ok.once
    intro a
    constructor
    · intro member
      refine ⟨?_, member⟩
      rintro rfl
      exact fresh member
    · exact And.right
  have same : tmTimerSetOptimizedStart (pQueue.setState pTimer .active) pTimer u64Expire =
      tmTimerQueueLinkActive (pQueue.setTimer pTimer
        { pQueue.timer pTimer with enmState := .active, u64Expire := u64Expire }) pTimer
        u64Expire := by
    simp [tmTimerSetOptimizedStart, TmTimerQueue.setState, TmTimerQueue.setExpire]
  rw [same, tmTimerQueueLinkActive_offSchedule]
  exact ⟨_, linked⟩

theorem QueueOk.schedule (unmisled : PassUnmisled pQueue) :
    ∃ l', QueueOk (tmTimerQueueSchedule pQueue) l' [] ∧
      (tmTimerQueueSchedule pQueue).offSchedule = [] := by
  have ok' : QueueOk { pQueue with offSchedule := [] } l pQueue.offSchedule :=
    ok.congr rfl rfl fun _ => ⟨rfl, rfl⟩
  rw [PassUnmisled, active_eq ok.list] at unmisled
  exact pass_ok ok' (fun _ _ _ before armed _ => ⟨before, armed⟩) unmisled

end

theorem resetHzHint_ok (ok : QueueOk tm.queue l tm.queue.offSchedule) :
    QueueOk (resetHzHint tm pTimer).queue l (resetHzHint tm pTimer).queue.offSchedule := by
  rw [resetHzHint]
  split
  · refine ok.congr rfl rfl fun a => ?_
    by_cases same : a = pTimer
    · subst same
      dsimp only
      rw [setTimer_self]
      exact ⟨rfl, rfl⟩
    · dsimp only
      rw [setTimer_of_ne same]
      exact ⟨rfl, rfl⟩
  · exact ok

/-- One call keeps the invariant, and a pass settles the list. -/
theorem apply_ok {call : TmCall cTimers} (ok : QueueOk tm.queue l tm.queue.offSchedule)
    (unmisled : Unmisled tm call) :
    (∃ l', QueueOk (call.apply tm).queue l' (call.apply tm).queue.offSchedule) ∧
      (call = .schedule → Settled (call.apply tm).queue) := by
  cases call with
  | set pTimer u64Expire fLock =>
    refine ⟨?_, fun same => by cases same⟩
    show ∃ l', QueueOk (tmTimerSet fLock tm pTimer u64Expire).1.queue l' _
    rcases tmTimerSet_cases fLock with ⟨starts, queue⟩ | posts
    · have clear := unmisled starts
      rw [active_eq ok.list] at clear
      rw [Bool.and_eq_true] at starts
      obtain ⟨l', started⟩ := ok.start starts.1 clear
      rw [← queue] at started
      exact ⟨l', started⟩
    · exact ⟨l, ok.posts posts⟩
  | stop pTimer =>
    refine ⟨⟨l, ?_⟩, fun same => by cases same⟩
    exact (resetHzHint_ok ok).posts tmTimerStop_posts
  | schedule =>
    obtain ⟨l', ok', empty⟩ := ok.schedule unmisled
    exact ⟨⟨l', empty ▸ ok'⟩, fun _ => ok'.settled⟩

/-- The invariant of a run, and what its last call has made of the list. -/
def RunOk (past : List (TmCall cTimers)) (tm : TmState cTimers) : Prop :=
  (∃ l, QueueOk tm.queue l tm.queue.offSchedule) ∧
    (past.getLast? = some .schedule → Settled tm.queue)

/-- In every run of calls whose insertions are not misled, the active list is in order
after every pass. -/
theorem run_ordered {calls : List (TmCall cTimers)} (idle : Idle tm.queue)
    (run : Run (Guarded Unmisled CallStep) tm calls tm')
    (pass : calls.getLast? = some .schedule) : Settled tm'.queue := by
  have start : RunOk [] tm := ⟨⟨[], idle.ok⟩, fun none => by cases none⟩
  have finish := run.history RunOk (by
    rintro past s call t ⟨⟨l, ok⟩, -⟩ ⟨unmisled, rfl⟩
    obtain ⟨keeps, settles⟩ := apply_ok ok unmisled
    refine ⟨keeps, fun last => settles ?_⟩
    rw [getLast?_append] at last
    simpa using last) start
  exact finish.2 pass

/-- A queue of stopped timers. -/
def stoppedTm (cTimers : Nat) : TmState cTimers where
  queue :=
    { u64Expire := int64Max
      links := Links.empty
      offSchedule := []
      timer := fun _ => ⟨.stopped, 0, false, 0⟩ }
  uMaxHzHint := 0
  fHzHintNeedsUpdating := false
  fTimerFF := false

theorem stoppedTm_idle (cTimers : Nat) : Idle (stoppedTm cTimers).queue :=
  ⟨rfl, rfl, rfl, fun _ => ⟨rfl, rfl⟩⟩

theorem run_apply (tm : TmState cTimers) (calls : List (TmCall cTimers)) :
    Run CallStep tm calls (calls.foldl TmCall.apply tm) := by
  induction calls generalizing tm with
  | nil => exact .done tm
  | cons call calls ih => exact .next rfl (ih _)

def inOrderCalls : List (TmCall 2) :=
  [.set 0 10 true, .schedule, .set 0 30 true, .set 1 20 true, .schedule]

/-- An armed timer is re-armed while another one is inserted before it. -/
theorem run_ordered_rearm :
    Settled (inOrderCalls.foldl TmCall.apply (stoppedTm 2)).queue := by
  have run : Run (Guarded Unmisled CallStep) (stoppedTm 2) inOrderCalls
      (inOrderCalls.foldl TmCall.apply (stoppedTm 2)) :=
    .next ⟨by decide, rfl⟩ (.next ⟨by decide, rfl⟩ (.next ⟨by decide, rfl⟩
      (.next ⟨by decide, rfl⟩ (.next ⟨by decide, rfl⟩ (.done _)))))
  exact run_ordered (stoppedTm_idle 2) run rfl

/-- The runs below have three timers. -/
scoped instance neZero_three : NeZero 3 := ⟨by decide⟩

/-- Two armed timers; the first is re-armed, and a third one is armed behind it. -/
def rearmCalls : List (TmCall 3) :=
  [.set 0 10 true, .set 2 20 true, .schedule, .set 0 100 true, .set 1 50 true, .schedule]

def rearmed : TmState 3 := rearmCalls.foldl TmCall.apply (stoppedTm 3)

/-- The timer that expires at 20 ends up behind the one that expires at 50. -/
theorem rearm_misplaces :
    Run CallStep (stoppedTm 3) rearmCalls rearmed ∧ rearmCalls.getLast? = some .schedule ∧
      rearmed.queue.active = [1, 2, 0] ∧
      rearmed.queue.active.map (fun a => (rearmed.queue.timer a).u64Expire) = [50, 20, 100] ∧
      rearmed.queue.u64Expire = 50 ∧ ¬ Settled rearmed.queue := by
  have active : rearmed.queue.active = [1, 2, 0] := by decide
  have expires : rearmed.queue.active.map (fun a => (rearmed.queue.timer a).u64Expire) =
      [50, 20, 100] := by decide
  refine ⟨run_apply _ _, rfl, active, expires, by decide, fun settled => ?_⟩
  have sorted := pairwise_map.mpr settled.sorted
  rw [expires] at sorted
  revert sorted
  decide

end Runs

end VBox.Vmm.Tm
