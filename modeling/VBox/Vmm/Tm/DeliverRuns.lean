import VBox.Vmm.Tm.OrderRuns
import VBox.Vmm.Tm.VirtualSync

/-!
Runs of the virtual sync queue.

A pass is a start, any number of deliveries and a finish, and a callback may make any
calls that arm timers no earlier than the clock. `run_delivers` says that timers are
delivered in order, while armed, as long as no callback overtakes or stops the timer the
loop has remembered. `remembered_timer` has two runs in which one does.
-/

namespace VBox.Vmm.Tm

open VBox.Lib VBox.Lib.Links List Option

variable {cTimers : Nat}

/-- A call of a timer's function: the timer, and its expire time and state when the loop
took it. -/
structure Delivery (cTimers : Nat) where
  pTimer : Fin cTimers
  u64Expire : Nat
  enmState : TmTimerState

/-- The clock and its queue, the locals of a pass that is under way, and the deliveries so
far. -/
structure VsMachine (cTimers : Nat) where
  vs : VirtualSync cTimers
  locals : Option (RunLocals cTimers)
  delivered : List (Delivery cTimers)

inductive VsLabel (cTimers : Nat) where
  | start (u64VirtualNow : Nat)
  | deliver (calls : List (VsCall cTimers))
  | finish (u64VirtualNow2 : Nat)

/-- A callback arms no timer before the time it runs at. -/
def VsCall.notBefore (u64VirtualSync : Nat) : VsCall cTimers → Bool
  | set _ u64Expire => u64VirtualSync ≤ u64Expire
  | stop _ => true

def VsMachine.deliver (m : VsMachine cTimers) (locals : RunLocals cTimers) (pTimer : Fin cTimers)
    (calls : List (VsCall cTimers)) : VsMachine cTimers :=
  let t := m.vs.queue.timer pTimer
  let (vs, locals) := runDeliver m.vs locals pTimer calls
  ⟨vs, some locals, m.delivered ++ [⟨pTimer, t.u64Expire, t.enmState⟩]⟩

def VsMachine.step (m : VsMachine cTimers) : VsLabel cTimers → Option (VsMachine cTimers)
  | .start u64VirtualNow =>
      match m.locals with
      | none =>
          let (vs, locals) := runStart m.vs u64VirtualNow
          some { m with vs := vs, locals := locals }
      | some _ => none
  | .deliver calls =>
      match m.locals with
      | none => none
      | some locals =>
          match locals.due m.vs with
          | none => none
          | some pTimer =>
              if calls.all (VsCall.notBefore (m.vs.queue.timer pTimer).u64Expire) then
                some (m.deliver locals pTimer calls)
              else none
  | .finish u64VirtualNow2 =>
      match m.locals with
      | none => none
      | some locals =>
          match locals.due m.vs with
          | none => some { m with vs := runFinish m.vs locals u64VirtualNow2, locals := none }
          | some _ => none

def VsStep (m : VsMachine cTimers) (label : VsLabel cTimers) (m' : VsMachine cTimers) : Prop :=
  m.step label = some m'

/-- The remembered timer is still armed, and no armed timer expires before it. -/
def Unovertaken (vs : VirtualSync cTimers) (pTimer : Fin cTimers) : Prop :=
  vs.queue.Armed pTimer ∧
    ∀ c, vs.queue.Armed c → (vs.queue.timer pTimer).u64Expire ≤ (vs.queue.timer c).u64Expire

/-- A delivery that goes on with a remembered timer finds it as it was; and the clock is
not at its last value, so that it can step on. -/
def Undisturbed (m : VsMachine cTimers) : VsLabel cTimers → Prop
  | .start _ => m.vs.u64VirtualSync + 1 < 2 ^ 64
  | .deliver _ => ∀ locals ∈ m.locals, ∀ pTimer ∈ locals.due m.vs, Unovertaken m.vs pTimer
  | .finish _ => True

instance (vs : VirtualSync cTimers) (pTimer : Fin cTimers) : Decidable (Unovertaken vs pTimer) :=
  inferInstanceAs (Decidable (_ ∧ ∀ _, _))

instance (m : VsMachine cTimers) : DecidablePred (Undisturbed m)
  | .start _ => inferInstanceAs (Decidable (_ < _))
  | .deliver _ => inferInstanceAs (Decidable (∀ _ ∈ m.locals, ∀ _ ∈ _, _))
  | .finish _ => inferInstanceAs (Decidable True)

section Calls

variable {vs : VirtualSync cTimers} {pQueue : TmTimerQueue cTimers} {pTimer : Fin cTimers}
  {l : List (Fin cTimers)} {floor : Nat}

/-- The active list is in order, and no timer on it expires before `floor`. -/
def Held (floor : Nat) (pQueue : TmTimerQueue cTimers) : Prop :=
  (∃ l, QueueOk pQueue l []) ∧ ∀ a, pQueue.Armed a → floor ≤ (pQueue.timer a).u64Expire

theorem QueueOk.mem_iff_armed (ok : QueueOk pQueue l []) {a : Fin cTimers} :
    a ∈ l ↔ pQueue.Armed a := by
  rw [← active_eq ok.list]
  exact ok.settled.armed a

theorem QueueOk.clear (ok : QueueOk pQueue l []) {u64Expire : Nat} : Clear pQueue l u64Expire := by
  intro a c before notArmed
  exact absurd (ok.mem_iff_armed.mp (before.subset (by simp))) notArmed

theorem unlink_setState {enmState : TmTimerState} :
    (tmTimerQueueUnlinkActive pQueue pTimer).setState pTimer enmState =
      tmTimerQueueUnlinkActive (pQueue.setTimer pTimer (withState pQueue pTimer enmState))
        pTimer := by
  have expire : ∀ a, ((pQueue.setTimer pTimer (withState pQueue pTimer enmState)).timer a).u64Expire =
      (pQueue.timer a).u64Expire := by
    intro a
    by_cases same : a = pTimer
    · rw [same, setTimer_self]
      rfl
    · rw [setTimer_of_ne same]
  rw [tmTimerQueueUnlinkActive, tmTimerQueueUnlinkActive]
  simp only [expire]
  rfl

/-- An armed timer is taken off the list. -/
theorem QueueOk.disarm (ok : QueueOk pQueue l []) (armed : pQueue.Armed pTimer)
    {enmState : TmTimerState} (linked : enmState.isLinked = false)
    (scheduled : enmState.isScheduled = false) :
    ∃ l', QueueOk ((tmTimerQueueUnlinkActive pQueue pTimer).setState pTimer enmState) l' [] := by
  obtain ⟨xs, ys, rfl⟩ := append_of_mem (ok.mem_iff_armed.mpr armed)
  rw [unlink_setState]
  refine ⟨xs ++ ys, ok.unlink linked ?_⟩
  rw [armed]
  exact scheduled

/-- A timer that is off the list is armed. -/
theorem QueueOk.arm (ok : QueueOk pQueue l [])
    (unlinked : ¬ (pQueue.timer pTimer).enmState.isLinked) {t : TmTimer}
    (state : t.enmState = .active) :
    ∃ l', QueueOk (tmTimerQueueLinkActive (pQueue.setTimer pTimer t) pTimer t.u64Expire) l' [] :=
  ⟨_, ok.link unlinked state ok.clear (fun _ => by simp) nodup_nil⟩

theorem Held.arm (ok : QueueOk pQueue l [])
    (unlinked : (pQueue.timer pTimer).enmState.isLinked = false)
    (held : ∀ a, a ≠ pTimer → pQueue.Armed a → floor ≤ (pQueue.timer a).u64Expire) {t : TmTimer}
    (state : t.enmState = .active) (later : floor ≤ t.u64Expire) :
    Held floor (tmTimerQueueLinkActive (pQueue.setTimer pTimer t) pTimer t.u64Expire) := by
  refine ⟨ok.arm (by simp [unlinked]) state, ?_⟩
  intro a armed
  rw [TmTimerQueue.Armed, tmTimerQueueLinkActive_timer] at armed
  rw [tmTimerQueueLinkActive_timer]
  by_cases same : a = pTimer
  · rw [same, setTimer_self]
    exact later
  · rw [setTimer_of_ne same] at armed ⊢
    exact held a same armed

theorem Held.disarm (held : Held floor pQueue) (armed : pQueue.Armed pTimer)
    {enmState : TmTimerState} (linked : enmState.isLinked = false)
    (scheduled : enmState.isScheduled = false) :
    Held floor ((tmTimerQueueUnlinkActive pQueue pTimer).setState pTimer enmState) := by
  obtain ⟨⟨l, ok⟩, later⟩ := held
  refine ⟨ok.disarm armed linked scheduled, ?_⟩
  intro a armed'
  by_cases same : a = pTimer
  · rw [same, TmTimerQueue.Armed, TmTimerQueue.setState, setTimer_self] at armed'
    cases armed'
    cases linked
  · rw [TmTimerQueue.Armed, TmTimerQueue.setState, setTimer_of_ne same] at armed'
    rw [TmTimerQueue.setState, setTimer_of_ne same]
    exact later a armed'

/-- Changing a timer that is on no list. -/
theorem Held.set (held : Held floor pQueue)
    (old : (pQueue.timer pTimer).enmState.isLinked = false) {t : TmTimer}
    (linked : t.enmState.isLinked = false) (scheduled : t.enmState.isScheduled = false) :
    Held floor (pQueue.setTimer pTimer t) := by
  obtain ⟨⟨l, ok⟩, later⟩ := held
  have notActive : t.enmState ≠ .active := by
    intro active
    rw [active] at linked
    cases linked
  refine ⟨⟨l, ok.post (linked.trans old.symm) notActive (fun a => ?_) nodup_nil⟩, ?_⟩
  · simp [scheduled]
  · intro a armed
    by_cases same : a = pTimer
    · rw [same, TmTimerQueue.Armed, setTimer_self] at armed
      exact absurd armed notActive
    · rw [TmTimerQueue.Armed, setTimer_of_ne same] at armed
      rw [setTimer_of_ne same]
      exact later a armed

theorem dropHzHint_timer (a : Fin cTimers) :
    ((dropHzHint vs pTimer).queue.timer a).enmState = (vs.queue.timer a).enmState ∧
      ((dropHzHint vs pTimer).queue.timer a).u64Expire = (vs.queue.timer a).u64Expire := by
  rw [dropHzHint]
  split
  · by_cases same : a = pTimer
    · subst same
      dsimp only
      rw [setTimer_self]
      exact ⟨rfl, rfl⟩
    · dsimp only
      rw [setTimer_of_ne same]
      exact ⟨rfl, rfl⟩
  · exact ⟨rfl, rfl⟩

theorem dropHzHint_held (pTimer : Fin cTimers) (held : Held floor vs.queue) :
    Held floor (dropHzHint vs pTimer).queue ∧
      (dropHzHint vs pTimer).u64VirtualSync = vs.u64VirtualSync := by
  obtain ⟨⟨l, ok⟩, later⟩ := held
  have sameLinks : (dropHzHint vs pTimer).queue.links = vs.queue.links ∧
      (dropHzHint vs pTimer).queue.u64Expire = vs.queue.u64Expire ∧
      (dropHzHint vs pTimer).u64VirtualSync = vs.u64VirtualSync := by
    rw [dropHzHint]
    split <;> exact ⟨rfl, rfl, rfl⟩
  refine ⟨⟨⟨l, ok.congr sameLinks.1 sameLinks.2.1 dropHzHint_timer⟩, ?_⟩, sameLinks.2.2⟩
  intro a armed
  rw [TmTimerQueue.Armed, (dropHzHint_timer a).1] at armed
  rw [(dropHzHint_timer a).2]
  exact later a armed

theorem set_held {u64Expire : Nat} (held : Held floor vs.queue) (later : floor ≤ u64Expire) :
    Held floor (tmTimerVirtualSyncSet vs pTimer u64Expire).1.queue ∧
      (tmTimerVirtualSyncSet vs pTimer u64Expire).1.u64VirtualSync = vs.u64VirtualSync := by
  obtain ⟨⟨l, ok⟩, old⟩ := held
  rw [tmTimerVirtualSyncSet]
  cases state : (vs.queue.timer pTimer).enmState
  case stopped | expiredDeliver =>
    refine ⟨?_, rfl⟩
    have linked := Held.arm ok (by rw [state]; rfl) (fun a _ => old a)
      (t := { vs.queue.timer pTimer with enmState := .active, u64Expire := u64Expire }) rfl later
    simpa [TmTimerQueue.setState, TmTimerQueue.setExpire] using linked
  case active =>
    refine ⟨?_, rfl⟩
    obtain ⟨l', off⟩ : ∃ l', QueueOk ((tmTimerQueueUnlinkActive vs.queue pTimer).setState pTimer
        .stopped) l' [] := ok.disarm state rfl rfl
    have linked := Held.arm off (by rw [TmTimerQueue.setState, setTimer_self]; rfl) (fun a other => by
        rw [TmTimerQueue.Armed, TmTimerQueue.setState, setTimer_of_ne other]
        exact old a)
      (t := { vs.queue.timer pTimer with enmState := .active, u64Expire := u64Expire }) rfl later
    have same : (tmTimerQueueUnlinkActive vs.queue pTimer).setExpire pTimer u64Expire =
        ((tmTimerQueueUnlinkActive vs.queue pTimer).setState pTimer .stopped).setTimer pTimer
          { vs.queue.timer pTimer with enmState := .active, u64Expire := u64Expire } := by
      rw [TmTimerQueue.setState, setTimer_setTimer, TmTimerQueue.setExpire, ← state]
      rfl
    dsimp only
    rw [same]
    exact linked
  all_goals exact ⟨⟨⟨l, ok⟩, old⟩, rfl⟩

theorem stop_held (held : Held floor vs.queue) :
    Held floor (tmTimerVirtualSyncStop vs pTimer).1.queue ∧
      (tmTimerVirtualSyncStop vs pTimer).1.u64VirtualSync = vs.u64VirtualSync := by
  obtain ⟨dropped, clock⟩ := dropHzHint_held pTimer held
  rw [tmTimerVirtualSyncStop]
  cases state : ((dropHzHint vs pTimer).queue.timer pTimer).enmState
  case active => exact ⟨dropped.disarm state rfl rfl, clock⟩
  case expiredDeliver => exact ⟨dropped.set (by rw [state]; rfl) rfl rfl, clock⟩
  all_goals exact ⟨dropped, clock⟩

theorem apply_held {call : VsCall cTimers} (held : Held floor vs.queue)
    (later : call.notBefore floor) :
    Held floor (call.apply vs).queue ∧ (call.apply vs).u64VirtualSync = vs.u64VirtualSync := by
  cases call with
  | set pTimer u64Expire => exact set_held held (by simpa [VsCall.notBefore] using later)
  | stop pTimer => exact stop_held held

/-- The calls of a callback keep the list in order and the clock where it is. -/
theorem calls_held {calls : List (VsCall cTimers)} (held : Held floor vs.queue)
    (later : calls.all (VsCall.notBefore floor)) : Held floor (calls.foldl VsCall.apply vs).queue ∧
      (calls.foldl VsCall.apply vs).u64VirtualSync = vs.u64VirtualSync := by
  induction calls generalizing vs with
  | nil => exact ⟨held, rfl⟩
  | cons call calls ih =>
    rw [all_cons, Bool.and_eq_true] at later
    obtain ⟨held, clock⟩ := apply_held held later.1
    obtain ⟨held, clock'⟩ := ih held later.2
    exact ⟨held, clock'.trans clock⟩

end Calls

section Steps

variable {vs : VirtualSync cTimers} {m m' : VsMachine cTimers} {pTimer : Fin cTimers}

theorem afterCallback_held {floor : Nat} (pTimer : Fin cTimers) (held : Held floor vs.queue) :
    Held floor (afterCallback vs pTimer).queue ∧
      (afterCallback vs pTimer).u64VirtualSync = vs.u64VirtualSync := by
  rw [afterCallback]
  split
  case isTrue state =>
    have stopped : Held floor ({ vs with queue := vs.queue.setState pTimer .stopped } :
        VirtualSync cTimers).queue := held.set (by rw [state]; rfl) rfl rfl
    exact dropHzHint_held pTimer stopped
  case isFalse => exact ⟨held, rfl⟩

/-- The clock only moves forward at the start of a pass, and not beyond the head. -/
theorem runStartAt_held (u64VirtualNow : Nat) (steps : vs.u64VirtualSync + 1 < 2 ^ 64)
    (held : Held vs.u64VirtualSync vs.queue) (armed : vs.queue.Armed pTimer)
    (first : ∀ c, vs.queue.Armed c →
      (vs.queue.timer pTimer).u64Expire ≤ (vs.queue.timer c).u64Expire) :
    (runStartAt vs pTimer u64VirtualNow).1.queue = vs.queue ∧
      vs.u64VirtualSync ≤ (runStartAt vs pTimer u64VirtualNow).1.u64VirtualSync ∧
      Held (runStartAt vs pTimer u64VirtualNow).1.u64VirtualSync vs.queue := by
  obtain ⟨ok, later⟩ := held
  have adjusted : ∀ u64, vs.u64VirtualSync ≤ adjustLast vs.u64VirtualSync u64 := by
    intro u64
    rw [adjustLast]
    split
    · rw [add64, Nat.mod_eq_of_lt steps]
      exact Nat.le_succ _
    · exact Nat.not_lt.mp ‹_›
  rw [runStartAt]
  split
  case isFalse => exact ⟨rfl, Nat.le_refl _, ok, later⟩
  case isTrue =>
    generalize catchUpAt vs u64VirtualNow = catchUp
    obtain ⟨off, update⟩ := catchUp
    dsimp only
    split
    case isTrue => exact ⟨rfl, later pTimer armed, ok, first⟩
    case isFalse notYet =>
      have behind : ∀ a, vs.queue.Armed a →
          adjustLast vs.u64VirtualSync (sub64 u64VirtualNow off) ≤ (vs.queue.timer a).u64Expire :=
        fun a armed' => ((Nat.not_le.mp notYet).le).trans (first a armed')
      cases update with
      | none => exact ⟨rfl, adjusted _, ok, behind⟩
      | some stop => exact ⟨rfl, adjusted _, ok, behind⟩

theorem restart_clock (vs : VirtualSync cTimers) (locals : RunLocals cTimers)
    (u64VirtualNow2 : Nat) : (runFinish vs locals u64VirtualNow2).queue = vs.queue ∧
      (runFinish vs locals u64VirtualNow2).u64VirtualSync = vs.u64VirtualSync := by
  have catchUp : ∀ offNew offLag,
      (restartCatchUp vs u64VirtualNow2 offNew offLag).queue = vs.queue ∧
      (restartCatchUp vs u64VirtualNow2 offNew offLag).u64VirtualSync = vs.u64VirtualSync := by
    intro offNew offLag
    rw [restartCatchUp]
    split_ifs <;> exact ⟨rfl, rfl⟩
  rw [runFinish]
  split
  · exact catchUp _ _
  · exact ⟨rfl, rfl⟩

/-- What holds of every state: the queue is in order, no armed timer expires before the
clock, and the deliveries so far were in order and of armed timers. -/
structure VsOk (m : VsMachine cTimers) : Prop where
  held : Held m.vs.u64VirtualSync m.vs.queue
  ordered : (m.delivered.map Delivery.u64Expire).Pairwise (· ≤ ·)
  past : ∀ d ∈ m.delivered, d.u64Expire ≤ m.vs.u64VirtualSync
  armed : ∀ d ∈ m.delivered, d.enmState = .active

theorem deliver_ok (ok : VsOk m) {locals : RunLocals cTimers} {calls : List (VsCall cTimers)}
    (unovertaken : Unovertaken m.vs pTimer)
    (later : calls.all (VsCall.notBefore (m.vs.queue.timer pTimer).u64Expire)) :
    VsOk (m.deliver locals pTimer calls) ∧
      m.vs.u64VirtualSync ≤ (m.deliver locals pTimer calls).vs.u64VirtualSync := by
  obtain ⟨armed, first⟩ := unovertaken
  obtain ⟨list, floor⟩ := ok.held
  have before := floor pTimer armed
  have held : Held (m.vs.queue.timer pTimer).u64Expire (unlinkExpired m.vs pTimer).queue :=
    Held.disarm ⟨list, first⟩ armed rfl rfl
  obtain ⟨held, clock⟩ := calls_held held later
  obtain ⟨held, clock'⟩ := afterCallback_held pTimer held
  have now : (m.deliver locals pTimer calls).vs.u64VirtualSync =
      (m.vs.queue.timer pTimer).u64Expire := clock'.trans clock
  constructor
  · constructor
    · rw [now]
      exact held
    · show ((m.delivered ++ [_]).map Delivery.u64Expire).Pairwise (· ≤ ·)
      rw [map_append, pairwise_append]
      refine ⟨ok.ordered, pairwise_singleton _ _, ?_⟩
      intro e earlier e' this
      obtain ⟨d, member, rfl⟩ := List.mem_map.mp earlier
      rw [mem_singleton.mp this]
      exact (ok.past d member).trans before
    · intro d member
      rw [now]
      rcases mem_append.mp member with member | member
      · exact (ok.past d member).trans before
      · rw [mem_singleton.mp member]
    · intro d member
      rcases mem_append.mp member with member | member
      · exact ok.armed d member
      · rw [mem_singleton.mp member]
        exact armed
  · rw [now]
    exact before

theorem start_ok (ok : VsOk m) {u64VirtualNow : Nat} (steps : m.vs.u64VirtualSync + 1 < 2 ^ 64) :
    VsOk { m with vs := (runStart m.vs u64VirtualNow).1, locals := (runStart m.vs u64VirtualNow).2 } ∧
      m.vs.u64VirtualSync ≤ (runStart m.vs u64VirtualNow).1.u64VirtualSync := by
  have list := ok.held.1
  obtain ⟨l, list⟩ := list
  rw [runStart]
  cases head : m.vs.queue.links.head with
  | none => exact ⟨⟨ok.held, ok.ordered, ok.past, ok.armed⟩, Nat.le_refl _⟩
  | some pNext =>
    rw [list.list.head] at head
    cases l with
    | nil => cases head
    | cons a l =>
      cases head
      have armed : m.vs.queue.Armed pNext := list.mem_iff_armed.mp (mem_cons_self ..)
      have first : ∀ c, m.vs.queue.Armed c →
          (m.vs.queue.timer pNext).u64Expire ≤ (m.vs.queue.timer c).u64Expire := by
        intro c armed'
        rcases mem_cons.mp (list.mem_iff_armed.mpr armed') with rfl | member
        · exact Nat.le_refl _
        · exact (pairwise_cons.mp list.sorted).1 c member armed armed'
      obtain ⟨queue, forward, held⟩ := runStartAt_held u64VirtualNow steps ok.held armed first
      refine ⟨⟨?_, ok.ordered, ?_, ok.armed⟩, forward⟩
      · show Held _ (runStartAt m.vs pNext u64VirtualNow).1.queue
        rw [queue]
        exact held
      · exact fun d member => (ok.past d member).trans forward

/-- One step keeps the invariant, and the clock does not go back. -/
theorem step_ok {label : VsLabel cTimers} (ok : VsOk m) (undisturbed : Undisturbed m label)
    (step : VsStep m label m') : VsOk m' ∧ m.vs.u64VirtualSync ≤ m'.vs.u64VirtualSync := by
  rw [VsStep] at step
  cases label with
  | start u64VirtualNow =>
    rw [VsMachine.step] at step
    cases idle : m.locals with
    | some locals =>
      rw [idle] at step
      cases step
    | none =>
      rw [idle] at step
      cases step
      exact start_ok ok undisturbed
  | deliver calls =>
    rw [VsMachine.step] at step
    cases under : m.locals with
    | none =>
      rw [under] at step
      cases step
    | some locals =>
      rw [under] at step
      dsimp only at step
      cases due : locals.due m.vs with
      | none =>
        rw [due] at step
        cases step
      | some pTimer =>
        rw [due] at step
        dsimp only at step
        split at step
        case isTrue later =>
          cases step
          exact deliver_ok ok (undisturbed locals under pTimer due) later
        case isFalse => cases step
  | finish u64VirtualNow2 =>
    rw [VsMachine.step] at step
    cases under : m.locals with
    | none =>
      rw [under] at step
      cases step
    | some locals =>
      rw [under] at step
      dsimp only at step
      cases due : locals.due m.vs with
      | some pTimer =>
        rw [due] at step
        cases step
      | none =>
        rw [due] at step
        cases step
        obtain ⟨queue, clock⟩ := restart_clock m.vs locals u64VirtualNow2
        refine ⟨⟨?_, ok.ordered, ?_, ok.armed⟩, clock.ge⟩
        · show Held (runFinish m.vs locals u64VirtualNow2).u64VirtualSync
            (runFinish m.vs locals u64VirtualNow2).queue
          rw [queue, clock]
          exact ok.held
        · intro d member
          show _ ≤ (runFinish m.vs locals u64VirtualNow2).u64VirtualSync
          rw [clock]
          exact ok.past d member

end Steps

section Runs

/-- No pass is under way, the queue is in order and no armed timer expires before the
clock. -/
structure VsStart (m : VsMachine cTimers) : Prop where
  held : Held m.vs.u64VirtualSync m.vs.queue
  locals : m.locals = none
  delivered : m.delivered = []

theorem VsStart.ok {m : VsMachine cTimers} (start : VsStart m) : VsOk m := by
  refine ⟨start.held, ?_, ?_, ?_⟩ <;> rw [start.delivered]
  · exact .nil
  · exact fun _ member => by cases member
  · exact fun _ member => by cases member

theorem run_ok {m m' : VsMachine cTimers} {labels : List (VsLabel cTimers)} (ok : VsOk m)
    (run : Run (Guarded Undisturbed VsStep) m labels m') :
    VsOk m' ∧ m.vs.u64VirtualSync ≤ m'.vs.u64VirtualSync :=
  run.invariant (fun s => VsOk s ∧ m.vs.u64VirtualSync ≤ s.vs.u64VirtualSync)
    (fun {_ _ _} before step =>
      have after := step_ok before.1 step.1 step.2
      ⟨after.1, before.2.trans after.2⟩) ⟨ok, Nat.le_refl _⟩

/-- In every run whose loops find the timer they remembered as it was: after every callback
the active list is in order and holds exactly the armed timers, the clock never goes
back, and the deliveries are in the order of the expire times and of armed timers. -/
theorem run_delivers {m₀ m m' : VsMachine cTimers} {before after : List (VsLabel cTimers)}
    (start : VsStart m₀) (run : Run (Guarded Undisturbed VsStep) m₀ before m)
    (run' : Run (Guarded Undisturbed VsStep) m after m') :
    Settled m'.vs.queue ∧ m.vs.u64VirtualSync ≤ m'.vs.u64VirtualSync ∧
      (m'.delivered.map Delivery.u64Expire).Pairwise (· ≤ ·) ∧
      ∀ d ∈ m'.delivered, d.enmState = .active := by
  obtain ⟨ok, -⟩ := run_ok start.ok run
  obtain ⟨ok', forward⟩ := run_ok ok run'
  obtain ⟨⟨l, list⟩, -⟩ := ok'.held
  exact ⟨list.settled, forward, ok'.ordered, ok'.armed⟩

/-- A clock at zero with stopped timers. -/
def stoppedVs (cTimers : Nat) : VirtualSync cTimers where
  queue := (stoppedTm cTimers).queue
  u64VirtualSync := 0
  fVirtualSyncTicking := true
  cVirtualTicking := 1
  offVirtualSync := 0
  offVirtualSyncGivenUp := 0
  fVirtualSyncCatchUp := false
  u64VirtualSyncCatchUpPrev := 0
  u32VirtualSyncCatchUpPercentage := 0
  u32VirtualSyncScheduleSlack := 100000
  u64VirtualSyncCatchUpStopThreshold := 500000
  u64VirtualSyncCatchUpGiveUpThreshold := 60000000000
  aVirtualSyncCatchUpPeriods := (⟨750000, 5⟩, [⟨1500000, 10⟩])
  uMaxHzHint := 0
  fHzHintNeedsUpdating := false
  fVirtualWarpDrive := false
  u32VirtualWarpDrivePercentage := 0
  u64VirtualExpire := int64Max
  fTimerFF := false
  fVirtualSyncFF := false

/-- Three timers, armed at 10, 20 and 30. -/
def armedVs : VsMachine 3 :=
  ⟨[VsCall.set 0 10, .set 1 20, .set 2 30].foldl VsCall.apply (stoppedVs 3), none, []⟩

theorem armedVs_start : VsStart armedVs := by
  refine ⟨?_, rfl, rfl⟩
  have empty : Held 0 (stoppedVs 3).queue := by
    refine ⟨⟨[], (stoppedTm_idle 3).ok⟩, fun a armed => ?_⟩
    cases armed
  exact (calls_held empty (by decide)).1

/-- A whole pass, whose first callback re-arms its own timer behind the next. -/
def tidyLabels : List (VsLabel 3) :=
  [.start 25, .deliver [.set 0 35], .deliver [.stop 2], .finish 40]

theorem run_delivers_tidy : ∃ m, Run VsStep armedVs tidyLabels m ∧ Settled m.vs.queue ∧
    armedVs.vs.u64VirtualSync ≤ m.vs.u64VirtualSync ∧
    (m.delivered.map Delivery.u64Expire).Pairwise (· ≤ ·) ∧
    ∀ d ∈ m.delivered, d.enmState = .active := by
  have run : Run (Guarded Undisturbed VsStep) armedVs tidyLabels _ :=
    .next ⟨by decide, rfl⟩ (.next ⟨by decide, rfl⟩ (.next ⟨by decide, rfl⟩
      (.next ⟨by decide, rfl⟩ (.done _))))
  exact ⟨_, run.mono And.right, run_delivers armedVs_start (.done _) run⟩

def VsMachine.steps (m : VsMachine cTimers) (labels : List (VsLabel cTimers)) :
    Option (VsMachine cTimers) :=
  labels.foldlM VsMachine.step m

theorem run_steps {m m' : VsMachine cTimers} {labels : List (VsLabel cTimers)}
    (steps : m.steps labels = some m') : Run VsStep m labels m' := by
  induction labels generalizing m with
  | nil =>
    cases steps
    exact .done _
  | cons label labels ih =>
    rw [VsMachine.steps, foldlM_cons, bind_eq_bind, bind_eq_some_iff] at steps
    obtain ⟨m₁, first, rest⟩ := steps
    exact .next first (ih rest)

/-- The callback of the first timer stops the second, which the loop has remembered. -/
def stopLabels : List (VsLabel 3) := [.start 1000, .deliver [.stop 1], .deliver []]

/-- The callback of the first timer re-arms it before the second; the next pass finds it. -/
def overtakeLabels : List (VsLabel 3) :=
  [.start 25, .deliver [.set 0 15], .deliver [], .finish 40]

/-- A stopped timer is delivered, and the list loses the third timer; and a timer is
delivered before one that expires earlier, so that the next pass sets the clock back. -/
theorem remembered_timer :
    VsStart armedVs ∧
    (∃ m, Run VsStep armedVs stopLabels m ∧
      m.delivered.map Delivery.enmState = [.active, .stopped] ∧
      m.vs.queue.active = [] ∧ m.vs.queue.Armed 2 ∧ ¬ Settled m.vs.queue) ∧
    ∃ m m', Run VsStep armedVs overtakeLabels m ∧ Run VsStep m [.start 50, .deliver []] m' ∧
      m'.delivered.map Delivery.u64Expire = [10, 20, 15] ∧
      m.vs.u64VirtualSync = 20 ∧ m'.vs.u64VirtualSync = 15 := by
  refine ⟨armedVs_start, ?_, ?_⟩
  · have lost : (armedVs.steps stopLabels).map (fun m => (m.delivered.map Delivery.enmState,
        m.vs.queue.active, (m.vs.queue.timer 2).enmState)) =
        some ([.active, .stopped], [], .active) := by decide
    rw [map_eq_some_iff] at lost
    obtain ⟨m, steps, facts⟩ := lost
    rw [Prod.mk.injEq, Prod.mk.injEq] at facts
    obtain ⟨delivered, active, armed⟩ := facts
    refine ⟨m, run_steps steps, delivered, active, armed, fun settled => ?_⟩
    have member := (settled.armed 2).mpr armed
    rw [active] at member
    cases member
  · have back : (armedVs.steps overtakeLabels).map (fun m => (m.vs.u64VirtualSync,
        (m.steps [.start 50, .deliver []]).map fun m' =>
          (m'.delivered.map Delivery.u64Expire, m'.vs.u64VirtualSync))) =
        some (20, some ([10, 20, 15], 15)) := by decide
    rw [map_eq_some_iff] at back
    obtain ⟨m, steps, facts⟩ := back
    rw [Prod.mk.injEq, map_eq_some_iff] at facts
    obtain ⟨clock, m', steps', facts⟩ := facts
    rw [Prod.mk.injEq] at facts
    exact ⟨m, m', run_steps steps, run_steps steps', facts.1, clock, facts.2⟩

end Runs

end VBox.Vmm.Tm
