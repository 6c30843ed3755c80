import VBox.Vmm.Tm.Clock

/-!
Runs of reads, timer calls and passes.

`run_steady` says when the values the clock returns never go back and never pass the head
timer. `lockless_passes` is a run in which a read without the lock does both.
-/

namespace VBox.Vmm.Tm

open VBox.Lib VBox.Lib.Links List

variable {cTimers : Nat}

section Pass

variable {vs : VirtualSync cTimers} {m : VsMachine cTimers} {now last : Nat}
  {pTimer : Fin cTimers}

/-- The locals of a pass and the clock under it. -/
structure LocalsOk (vs : VirtualSync cTimers) (locals : RunLocals cTimers) (now : Nat) : Prop where
  started : locals.u64VirtualNow ≤ now
  forward : locals.u64Now ≤ vs.u64VirtualSync
  recorded : vs.u64VirtualSync + vs.offVirtualSyncGivenUp ≤ locals.u64VirtualNow
  frame : locals.u64Max + vs.offVirtualSyncGivenUp ≤ locals.u64VirtualNow
  ahead : ∀ a, vs.queue.Armed a → locals.u64Now ≤ (vs.queue.timer a).u64Expire

section

variable {u64VirtualNow : Nat} (ok : ClockOk vs now last) (later : now ≤ u64VirtualNow)
  (small : u64VirtualNow < 2 ^ 63)
  (gap : vs.fVirtualSyncTicking = true → GapOk vs last u64VirtualNow)

include ok later small gap

/-- The start of a pass, for a queue with a head. -/
theorem runStartAt_ok (head : vs.queue.links.head = some pTimer) :
    ClockOk (runStartAt vs pTimer u64VirtualNow).1 u64VirtualNow last ∧
      (runStartAt vs pTimer u64VirtualNow).2 =
        (runStartAt vs pTimer u64VirtualNow).1.u64VirtualSync ∧
      (runStartAt vs pTimer u64VirtualNow).1.u64VirtualSync + vs.offVirtualSyncGivenUp ≤
        u64VirtualNow ∧
      (runStartAt vs pTimer u64VirtualNow).1.offVirtualSyncGivenUp = vs.offVirtualSyncGivenUp ∧
      (runStartAt vs pTimer u64VirtualNow).1.queue = vs.queue ∧ ∀ a, vs.queue.Armed a →
        (runStartAt vs pTimer u64VirtualNow).2 ≤ (vs.queue.timer a).u64Expire := by
  obtain ⟨expire, armed, first⟩ := queueExpire_le ok.list head
  rw [runStartAt]
  split
  case isFalse stops =>
    obtain ⟨-, recorded, floor⟩ := ok.stopped (by simpa using stops)
    exact ⟨ok.later later small (Nat.le_refl _), rfl, recorded.trans later, rfl, rfl, floor⟩
  case isTrue ticking =>
    obtain ⟨offsets, shown⟩ := ok.at_read ticking later small (gap ticking)
    have bounds := offAt_bounds offsets
    have recorded := offsets.recorded
    have adjusted := adjustLast_eq offsets
    cases result : catchUpAt vs u64VirtualNow with
    | mk off update =>
      have step : off = offAt vs u64VirtualNow := by rw [offAt, result]
      dsimp only
      rw [step, adjusted]
      split
      case isTrue due =>
        refine ⟨⟨ok.list, ok.armed, ⟨ok.words.1, ok.words.2, ok.words.3, ok.words.4⟩, small,
          offsets.prev, ok.lag, (fun ticks => by cases ticks),
          fun _ => ⟨ok.armed pTimer armed, ?_, first⟩⟩, rfl, ?_, rfl, rfl, first⟩
        · show (vs.queue.timer pTimer).u64Expire + vs.offVirtualSyncGivenUp ≤ u64VirtualNow
          omega
        · show (vs.queue.timer pTimer).u64Expire + vs.offVirtualSyncGivenUp ≤ u64VirtualNow
          omega
      case isFalse notDue =>
        have before : u64VirtualNow - offAt vs u64VirtualNow < vs.queue.u64Expire := by
          rw [expire]
          exact Nat.not_le.mp notDue
        have forward : last ≤ u64VirtualNow - offAt vs u64VirtualNow := by omega
        have ahead : ∀ a, vs.queue.Armed a →
            u64VirtualNow - offAt vs u64VirtualNow ≤ (vs.queue.timer a).u64Expire :=
          fun a armed' => (Nat.not_le.mp notDue).le.trans (first a armed')
        cases update with
        | none =>
          have off : offAt vs u64VirtualNow = vs.offVirtualSync := by
            have whole := catchUpStep_eq offsets
            rw [catchUpAt] at result
            split at result
            · rw [whole] at result
              split_ifs at result
              · cases result
              · cases result
              · rw [Prod.mk.injEq] at result
                exact step.symm.trans result.1.symm
            · rw [Prod.mk.injEq] at result
              exact step.symm.trans result.1.symm
          have offsets' : Offsets { vs with
              u64VirtualSync := u64VirtualNow - offAt vs u64VirtualNow } u64VirtualNow := by
            refine ⟨⟨ok.words.1, ok.words.2, ok.words.3, ok.words.4⟩, small, offsets.prev,
              ok.lag, ?_⟩
            show u64VirtualNow - offAt vs u64VirtualNow + vs.offVirtualSync ≤ u64VirtualNow
            omega
          refine ⟨?_, rfl, ?_, rfl, rfl, ahead⟩
          · exact (recorded_ok offsets' ok rfl ticking rfl before).later (Nat.le_refl _) small
              forward
          · show u64VirtualNow - offAt vs u64VirtualNow + vs.offVirtualSyncGivenUp ≤ u64VirtualNow
            omega
        | some fStop =>
          have offsets' : Offsets { vs with
              offVirtualSync := offAt vs u64VirtualNow
              u64VirtualSyncCatchUpPrev := u64VirtualNow
              u64VirtualSync := u64VirtualNow - offAt vs u64VirtualNow
              fVirtualSyncCatchUp := if fStop then false else vs.fVirtualSyncCatchUp }
              u64VirtualNow := by
            refine ⟨⟨ok.words.1, ok.words.2, ok.words.3, ok.words.4⟩, small, Nat.le_refl _,
              bounds.1, ?_⟩
            show u64VirtualNow - offAt vs u64VirtualNow + offAt vs u64VirtualNow ≤ u64VirtualNow
            omega
          refine ⟨?_, rfl, ?_, rfl, rfl, ahead⟩
          · exact (recorded_ok offsets' ok rfl ticking rfl before).later (Nat.le_refl _) small
              forward
          · show u64VirtualNow - offAt vs u64VirtualNow + vs.offVirtualSyncGivenUp ≤ u64VirtualNow
            omega

theorem start_clock : ClockOk (runStart vs u64VirtualNow).1 u64VirtualNow last ∧
      ∀ locals ∈ (runStart vs u64VirtualNow).2,
        LocalsOk (runStart vs u64VirtualNow).1 locals u64VirtualNow := by
  rw [runStart]
  cases head : vs.queue.links.head with
  | none => exact ⟨ok.later later small (Nat.le_refl _), fun _ member => by cases member⟩
  | some pNext =>
    obtain ⟨ok', now', recorded, lag, queue, ahead⟩ := runStartAt_ok ok later small gap head
    dsimp only
    refine ⟨ok', ?_⟩
    rintro locals ⟨⟩
    have plain : sub64 u64VirtualNow vs.offVirtualSyncGivenUp =
        u64VirtualNow - vs.offVirtualSyncGivenUp := sub64_eq (by omega) small
    refine ⟨Nat.le_refl _, now'.le, ?_, ?_, ?_⟩
    · rw [lag]
      exact recorded
    · dsimp only
      rw [lag, plain]
      split <;> omega
    · rw [queue]
      exact ahead

end

/-- A delivery moves the stopped clock to the timer's time. -/
theorem deliver_clock {locals : RunLocals cTimers} {calls : List (VsCall cTimers)}
    (ok : ClockOk m.vs now last) (localsOk : LocalsOk m.vs locals now)
    (due : locals.due m.vs = some pTimer) (unovertaken : Unovertaken m.vs pTimer)
    (later : calls.all (VsCall.notBefore (m.vs.queue.timer pTimer).u64Expire)) :
    ClockOk (m.deliver locals pTimer calls).vs now last ∧
      ∀ locals' ∈ (m.deliver locals pTimer calls).locals,
        LocalsOk (m.deliver locals pTimer calls).vs locals' now := by
  obtain ⟨armed, first⟩ := unovertaken
  rw [RunLocals.due, Option.filter_eq_some_iff] at due
  have frame : (m.vs.queue.timer pTimer).u64Expire ≤ locals.u64Max := by simpa using due.2
  have started := localsOk.started
  have max := localsOk.frame
  have notPast : locals.u64Now ≤ (m.vs.queue.timer pTimer).u64Expire := localsOk.ahead pTimer armed
  have held : Held (m.vs.queue.timer pTimer).u64Expire (unlinkExpired m.vs pTimer).queue :=
    Held.disarm ⟨ok.list, first⟩ armed rfl rfl
  have expired : ClockOk (unlinkExpired m.vs pTimer) now last := by
    refine ⟨held.1, fun a armed' => (ok.armed pTimer armed).trans (held.2 a armed'),
      ⟨ok.words.1, ok.words.2, ok.words.3, ok.words.4⟩, ok.small, ok.prev, ok.lag,
      (fun ticks => by cases ticks), fun _ => ⟨ok.armed pTimer armed, ?_, held.2⟩⟩
    show (m.vs.queue.timer pTimer).u64Expire + m.vs.offVirtualSyncGivenUp ≤ now
    omega
  have after := calls_held held later
  have back := afterCallback_held pTimer after.1
  have same : SameClock (unlinkExpired m.vs pTimer) (m.deliver locals pTimer calls).vs :=
    (calls_clock _ calls).trans (afterCallback_clock _ pTimer)
  refine ⟨expired.withQueue same ?_ fun _ => back.1, ?_⟩
  · exact ⟨back.1.1, fun a armed' => (ok.armed pTimer armed).trans (back.1.2 a armed')⟩
  · rintro locals' ⟨⟩
    refine ⟨started, ?_, ?_, ?_, fun a armed' => notPast.trans (back.1.2 a armed')⟩
    · rw [same]
      exact notPast
    · rw [same]
      show (m.vs.queue.timer pTimer).u64Expire + m.vs.offVirtualSyncGivenUp ≤ _
      exact (Nat.add_le_add_right frame _).trans max
    · rw [same]
      exact max

/-- What a change of the catch-up leaves as it is. -/
structure Restarted (vs vs' : VirtualSync cTimers) (u64VirtualNow2 offNew : Nat) : Prop where
  queue : vs'.queue = vs.queue
  time : vs'.u64VirtualSync = vs.u64VirtualSync
  words : VsWords vs'
  prev : vs'.u64VirtualSyncCatchUpPrev = vs.u64VirtualSyncCatchUpPrev ∨
    vs'.u64VirtualSyncCatchUpPrev = u64VirtualNow2
  givenUp : vs'.offVirtualSyncGivenUp = vs.offVirtualSyncGivenUp ∨
    vs'.offVirtualSyncGivenUp = offNew

theorem catchUpPercentage_lt {offLag : Nat} {period : CatchUpPeriod}
    {periods : List CatchUpPeriod} (first : period.u32Percentage < 2 ^ 32)
    (others : ∀ next ∈ periods, next.u32Percentage < 2 ^ 32) :
    catchUpPercentage offLag period periods < 2 ^ 32 := by
  induction periods generalizing period with
  | nil => exact first
  | cons next periods ih =>
    rw [catchUpPercentage]
    split
    · exact ih (others next (mem_cons_self ..))
        fun period' member => others period' (mem_cons_of_mem _ member)
    · exact first

theorem restartCatchUp_ok (words : VsWords vs) (u64VirtualNow2 offNew offLag : Nat) :
    Restarted vs (restartCatchUp vs u64VirtualNow2 offNew offLag) u64VirtualNow2 offNew := by
  have percentage : catchUpPercentage offLag vs.aVirtualSyncCatchUpPeriods.1
      vs.aVirtualSyncCatchUpPeriods.2 < 2 ^ 32 := catchUpPercentage_lt words.first words.periods
  rw [restartCatchUp]
  split_ifs
  · exact ⟨rfl, rfl, ⟨words.1, words.2, words.3, words.4⟩, .inl rfl, .inl rfl⟩
  · exact ⟨rfl, rfl, ⟨Nat.max_lt.mpr ⟨words.1, percentage⟩, words.2, words.3, words.4⟩, .inr rfl,
      .inl rfl⟩
  · exact ⟨rfl, rfl, ⟨words.1, words.2, words.3, words.4⟩, .inl rfl, .inr rfl⟩
  · exact ⟨rfl, rfl, ⟨percentage, words.2, words.3, words.4⟩, .inl rfl, .inl rfl⟩
  · exact ⟨rfl, rfl, ⟨words.1, words.2, words.3, words.4⟩, .inl rfl, .inr rfl⟩
  · exact ⟨rfl, rfl, words, .inl rfl, .inl rfl⟩

/-- The clock runs on for no longer than the pass took. -/
theorem elapsedAtRestart_le (offSlack : Nat) {cNsPassed : Nat} (small : cNsPassed < 2 ^ 63) :
    elapsedAtRestart offSlack cNsPassed ≤ cNsPassed := by
  have clipped : (if maxElapsed < cNsPassed then maxElapsed else cNsPassed) ≤ cNsPassed := by
    split
    case isTrue less => exact less.le
    case isFalse => exact Nat.le_refl _
  rw [elapsedAtRestart]
  split
  · exact Nat.zero_le _
  · dsimp only
    generalize (if maxElapsed < cNsPassed then maxElapsed else cNsPassed) = u64Elapsed at clipped ⊢
    split
    case isTrue more =>
      rw [sub64_eq more.le (clipped.trans_lt small)]
      exact (Nat.sub_le _ _).trans clipped
    case isFalse => exact Nat.zero_le _

/-- The clock is restarted where it stopped, or a little later. -/
theorem finish_clock {locals : RunLocals cTimers} {u64VirtualNow2 : Nat} (ok : ClockOk vs now last)
    (localsOk : LocalsOk vs locals now) (later : now ≤ u64VirtualNow2)
    (small : u64VirtualNow2 < 2 ^ 63) :
    ClockOk (runFinish vs locals u64VirtualNow2) u64VirtualNow2 last := by
  rw [runFinish]
  split
  case isFalse => exact ok.later later small (Nat.le_refl _)
  case isTrue stopped =>
    rw [Bool.and_eq_true, Bool.not_eq_true'] at stopped
    obtain ⟨before, -, -⟩ := ok.stopped stopped.1
    have started := localsOk.started
    have recorded := localsOk.recorded
    have passed : sub64 u64VirtualNow2 locals.u64VirtualNow =
        u64VirtualNow2 - locals.u64VirtualNow := sub64_eq (started.trans later) small
    dsimp only
    rw [passed]
    generalize sub64 vs.u64VirtualSync locals.u64Now = offSlack
    have short := elapsedAtRestart_le offSlack
      (show u64VirtualNow2 - locals.u64VirtualNow < 2 ^ 63 by omega)
    generalize elapsedAtRestart offSlack (u64VirtualNow2 - locals.u64VirtualNow) = u64Elapsed at *
    have offNew : sub64 (sub64 u64VirtualNow2 vs.u64VirtualSync) u64Elapsed =
        u64VirtualNow2 - vs.u64VirtualSync - u64Elapsed := by
      rw [sub64_eq (by omega) small, sub64_eq (by omega) (by omega)]
    rw [offNew]
    generalize sub64 (u64VirtualNow2 - vs.u64VirtualSync - u64Elapsed)
      vs.offVirtualSyncGivenUp = offLag
    obtain ⟨queue, time, words, prev, givenUp⟩ :=
      restartCatchUp_ok ok.words u64VirtualNow2
        (u64VirtualNow2 - vs.u64VirtualSync - u64Elapsed) offLag
    generalize restartCatchUp vs u64VirtualNow2 (u64VirtualNow2 - vs.u64VirtualSync - u64Elapsed)
      offLag = vs' at *
    have behind := ok.prev
    have offsets : Offsets { vs' with
        offVirtualSync := u64VirtualNow2 - vs.u64VirtualSync - u64Elapsed
        fVirtualSyncTicking := true } u64VirtualNow2 := by
      refine ⟨⟨words.1, words.2, words.3, words.4⟩, small, ?_, ?_, ?_⟩
      · dsimp only
        rcases prev with prev | prev <;> omega
      · dsimp only
        rcases givenUp with givenUp | givenUp <;> omega
      · dsimp only
        omega
    refine ⟨?_, ?_, offsets.words, small, offsets.prev, offsets.lag, fun _ => ?_,
      fun stops => by cases stops⟩
    · show ∃ l, QueueOk vs'.queue l []
      rw [queue]
      exact ok.list
    · show ∀ a, vs'.queue.Armed a → last ≤ (vs'.queue.timer a).u64Expire
      rw [queue]
      exact ok.armed
    · have bound := (offAt_bounds offsets).2
      refine ⟨u64VirtualNow2, Nat.le_refl _, offsets, ?_⟩
      dsimp only at bound
      omega

end Pass

section Machine

/-- A value the clock returned, and the expire time of the head timer then. -/
structure VsRead where
  u64 : Nat
  u64Head : Option Nat
deriving DecidableEq

/-- The clock with its passes, the raw time of the last step and the reads so far. -/
structure ClockMachine (cTimers : Nat) where
  vs : VsMachine cTimers
  u64Raw : Nat
  reads : List VsRead

inductive ClockLabel (cTimers : Nat) where
  | get (fCheckTimers fLock : Bool) (u64Raw : Nat)
  | call (call : VsCall cTimers)
  | run (label : VsLabel cTimers)

def headExpire (vs : VirtualSync cTimers) : Option Nat :=
  vs.queue.links.head.map fun pTimer => (vs.queue.timer pTimer).u64Expire

/-- The last value returned. -/
def ClockMachine.last (m : ClockMachine cTimers) : Nat :=
  (m.reads.getLast?.map VsRead.u64).getD 0

/-- The raw time a step of a pass reads. -/
def VsLabel.rawTime (u64Raw : Nat) : VsLabel cTimers → Nat
  | .start u64VirtualNow => u64VirtualNow
  | .deliver _ => u64Raw
  | .finish u64VirtualNow2 => u64VirtualNow2

def ClockMachine.read (m : ClockMachine cTimers) (fCheckTimers fLock : Bool) (u64Raw : Nat) :
    ClockMachine cTimers :=
  let (vs, time) := tmVirtualSyncGetEx m.vs.vs fCheckTimers fLock u64Raw
  ⟨{ m.vs with vs := vs }, u64Raw, m.reads ++ [⟨time.u64, headExpire m.vs.vs⟩]⟩

/-- A pass holds the lock; during one only its own callbacks could take it again, while the
clock is stopped. -/
def ClockMachine.step (m : ClockMachine cTimers) : ClockLabel cTimers → Option (ClockMachine cTimers)
  | .get fCheckTimers fLock u64Raw =>
      if m.u64Raw ≤ u64Raw && (m.vs.locals.isNone || !fLock || !m.vs.vs.fVirtualSyncTicking) then
        some (m.read fCheckTimers fLock u64Raw)
      else none
  | .call call =>
      if m.vs.locals.isNone && call.notBefore m.last then
        some { m with vs := { m.vs with vs := call.apply m.vs.vs } }
      else none
  | .run label =>
      if m.u64Raw ≤ label.rawTime m.u64Raw then
        (m.vs.step label).map fun vs => { m with vs := vs, u64Raw := label.rawTime m.u64Raw }
      else none

def ClockStep (m : ClockMachine cTimers) (label : ClockLabel cTimers) (m' : ClockMachine cTimers) :
    Prop :=
  m.step label = some m'

/-- A read without the lock does not come when the head timer is due, no gap is too long
for the catch-up, no timer is armed before the time a stopped clock shows, and the loop
of a pass finds the timer it remembered as it was. -/
def Steady (m : ClockMachine cTimers) : ClockLabel cTimers → Prop
  | .get _ fLock u64Raw => u64Raw < 2 ^ 63 ∧ (m.vs.vs.fVirtualSyncTicking = true →
      GapOk m.vs.vs m.last u64Raw ∧
        (fLock = false → u64Raw ≤ m.vs.vs.queue.u64Expire + offAt m.vs.vs u64Raw))
  | .call call => m.vs.vs.fVirtualSyncTicking = false → call.notBefore m.vs.vs.u64VirtualSync
  | .run (.start u64VirtualNow) => u64VirtualNow < 2 ^ 63 ∧
      (m.vs.vs.fVirtualSyncTicking = true → GapOk m.vs.vs m.last u64VirtualNow)
  | .run (.deliver calls) => Undisturbed m.vs (.deliver calls)
  | .run (.finish u64VirtualNow2) => u64VirtualNow2 < 2 ^ 63

instance (vs : VirtualSync cTimers) (last u64 : Nat) : Decidable (GapOk vs last u64) :=
  inferInstanceAs (Decidable (_ → _))

instance (m : ClockMachine cTimers) : DecidablePred (Steady m)
  | .get .. => inferInstanceAs (Decidable (_ ∧ (_ → _ ∧ (_ → _))))
  | .call _ => inferInstanceAs (Decidable (_ → _))
  | .run (.start _) => inferInstanceAs (Decidable (_ ∧ (_ → _)))
  | .run (.deliver calls) => inferInstanceAs (Decidable (Undisturbed m.vs (.deliver calls)))
  | .run (.finish _) => inferInstanceAs (Decidable (_ < _))

/-- What holds of every state. -/
structure ClockMachine.Ok (m : ClockMachine cTimers) : Prop where
  clock : ClockOk m.vs.vs m.u64Raw m.last
  locals : ∀ locals ∈ m.vs.locals, LocalsOk m.vs.vs locals m.u64Raw
  ordered : (m.reads.map VsRead.u64).Pairwise (· ≤ ·)
  past : ∀ r ∈ m.reads, r.u64 ≤ m.last
  ahead : ∀ r ∈ m.reads, ∀ u64Expire ∈ r.u64Head, r.u64 ≤ u64Expire

end Machine

section Steps

variable {m m' : ClockMachine cTimers}

/-- The head's time is that of the queue. -/
theorem le_headExpire {vs : VirtualSync cTimers} {u64 : Nat} (list : ∃ l, QueueOk vs.queue l [])
    (le : u64 ≤ vs.queue.u64Expire) : ∀ u64Expire ∈ headExpire vs, u64 ≤ u64Expire := by
  intro u64Expire member
  rw [headExpire, Option.mem_def, Option.map_eq_some_iff] at member
  obtain ⟨pTimer, head, rfl⟩ := member
  rw [← (queueExpire_le list head).1]
  exact le

/-- What a read leaves as it is for a pass that is under way. -/
theorem LocalsOk.read {vs : VirtualSync cTimers} {locals : RunLocals cTimers} {now u64Raw : Nat}
    {fCheckTimers fLock : Bool} (ok : LocalsOk vs locals now) (later : now ≤ u64Raw)
    (free : fLock = false ∨ vs.fVirtualSyncTicking = false) :
    LocalsOk (tmVirtualSyncGetEx vs fCheckTimers fLock u64Raw).1 locals u64Raw := by
  have shown : ∀ fVirtualSyncFF fTimerFF, LocalsOk
      { vs with fVirtualSyncFF := fVirtualSyncFF, fTimerFF := fTimerFF } locals u64Raw :=
    fun _ _ => ⟨ok.started.trans later, ok.forward, ok.recorded, ok.frame, ok.ahead⟩
  have same : LocalsOk vs locals u64Raw := shown vs.fVirtualSyncFF vs.fTimerFF
  have lockless : ∀ fTimerFF, LocalsOk
      (getLockless { vs with fTimerFF := fTimerFF } u64Raw).1 locals u64Raw := by
    intro fTimerFF
    rw [getLockless]
    dsimp only
    split
    · dsimp only
      split
      · exact shown vs.fVirtualSyncFF fTimerFF
      · exact shown true true
    · exact shown vs.fVirtualSyncFF fTimerFF
  rw [tmVirtualSyncGetEx]
  split
  case isFalse => exact same
  case isTrue ticking =>
    rcases free with unlocked | stopped
    · subst unlocked
      dsimp only
      rw [if_neg Bool.false_ne_true]
      split
      · exact lockless true
      · exact lockless vs.fTimerFF
    · rw [ticking] at stopped
      cases stopped

theorem read_ok {fCheckTimers fLock : Bool} {u64Raw : Nat} (ok : m.Ok)
    (steady : Steady m (.get fCheckTimers fLock u64Raw)) (later : m.u64Raw ≤ u64Raw)
    (free : m.vs.locals = none ∨ fLock = false ∨ m.vs.vs.fVirtualSyncTicking = false) :
    (m.read fCheckTimers fLock u64Raw).Ok := by
  obtain ⟨small, notDue⟩ := steady
  obtain ⟨clock, forward, head⟩ := @get_ok _ _ _ _ _ fCheckTimers fLock
    ok.clock later small fun ticking =>
      ⟨(notDue ticking).1, fun unlocked => by have := (notDue ticking).2 unlocked; omega⟩
  have last : (m.read fCheckTimers fLock u64Raw).last =
      (tmVirtualSyncGetEx m.vs.vs fCheckTimers fLock u64Raw).2.u64 := by
    rw [ClockMachine.last, ClockMachine.read, getLast?_concat]
    rfl
  constructor
  · rw [last]
    exact clock
  · intro locals member
    rcases free with idle | free
    · have under : locals ∈ m.vs.locals := member
      rw [idle] at under
      cases under
    · exact (ok.locals locals member).read later free
  · show ((m.reads ++ [_]).map VsRead.u64).Pairwise (· ≤ ·)
    rw [map_append, pairwise_append]
    refine ⟨ok.ordered, pairwise_singleton _ _, ?_⟩
    intro u64 earlier u64' this
    obtain ⟨r, member, rfl⟩ := List.mem_map.mp earlier
    rw [mem_singleton.mp this]
    exact (ok.past r member).trans forward
  · intro r member
    rw [last]
    rcases mem_append.mp member with member | member
    · exact (ok.past r member).trans forward
    · exact (congrArg VsRead.u64 (mem_singleton.mp member)).le
  · intro r member
    rcases mem_append.mp member with member | member
    · exact ok.ahead r member
    · rw [mem_singleton.mp member]
      exact le_headExpire ok.clock.list head

/-- One step of a pass. -/
theorem passStep_ok {label : VsLabel cTimers} {vs : VsMachine cTimers} (ok : m.Ok)
    (steady : Steady m (.run label)) (later : m.u64Raw ≤ label.rawTime m.u64Raw)
    (step : m.vs.step label = some vs) : ClockOk vs.vs (label.rawTime m.u64Raw) m.last ∧
      ∀ locals ∈ vs.locals, LocalsOk vs.vs locals (label.rawTime m.u64Raw) := by
  cases label with
  | start u64VirtualNow =>
    rw [VsMachine.step] at step
    cases idle : m.vs.locals with
    | some locals =>
      rw [idle] at step
      cases step
    | none =>
      rw [idle] at step
      cases step
      exact start_clock ok.clock later steady.1 steady.2
  | deliver calls =>
    rw [VsMachine.step] at step
    cases under : m.vs.locals with
    | none =>
      rw [under] at step
      cases step
    | some locals =>
      rw [under] at step
      dsimp only at step
      cases due : locals.due m.vs.vs with
      | none =>
        rw [due] at step
        cases step
      | some pTimer =>
        rw [due] at step
        dsimp only at step
        split at step
        case isTrue notBefore =>
          cases step
          exact deliver_clock ok.clock (ok.locals locals under) due
            (steady locals under pTimer due) notBefore
        case isFalse => cases step
  | finish u64VirtualNow2 =>
    rw [VsMachine.step] at step
    cases under : m.vs.locals with
    | none =>
      rw [under] at step
      cases step
    | some locals =>
      rw [under] at step
      dsimp only at step
      cases due : locals.due m.vs.vs with
      | some pTimer =>
        rw [due] at step
        cases step
      | none =>
        rw [due] at step
        cases step
        refine ⟨finish_clock ok.clock (ok.locals locals under) later steady, ?_⟩
        exact fun _ member => by cases member

/-- Every step keeps the invariant. -/
theorem clockStep_ok {label : ClockLabel cTimers} (ok : m.Ok) (steady : Steady m label)
    (step : ClockStep m label m') : m'.Ok := by
  rw [ClockStep] at step
  cases label with
  | get fCheckTimers fLock u64Raw =>
    rw [ClockMachine.step] at step
    split at step
    case isFalse => cases step
    case isTrue allowed =>
      cases step
      simp only [Bool.and_eq_true, decide_eq_true_eq, Bool.or_eq_true, Option.isNone_iff_eq_none,
        Bool.not_eq_true', or_assoc] at allowed
      exact read_ok ok steady allowed.1 allowed.2
  | call call =>
    rw [ClockMachine.step] at step
    split at step
    case isFalse => cases step
    case isTrue allowed =>
      cases step
      rw [Bool.and_eq_true, Option.isNone_iff_eq_none] at allowed
      refine ⟨call_ok call ok.clock allowed.2 steady, ?_, ok.ordered, ok.past, ok.ahead⟩
      intro locals under
      have under : locals ∈ m.vs.locals := under
      rw [allowed.1] at under
      cases under
  | run label =>
    rw [ClockMachine.step] at step
    split at step
    case isFalse => cases step
    case isTrue later =>
      rw [Option.map_eq_some_iff] at step
      obtain ⟨vs, step, rfl⟩ := step
      obtain ⟨clock, locals⟩ := passStep_ok ok steady later step
      exact ⟨clock, locals, ok.ordered, ok.past, ok.ahead⟩

end Steps

section Runs

/-- No value has been returned and no pass is under way. -/
structure ClockStart (m : ClockMachine cTimers) : Prop where
  clock : ClockOk m.vs.vs m.u64Raw 0
  locals : m.vs.locals = none
  reads : m.reads = []

theorem ClockStart.ok {m : ClockMachine cTimers} (start : ClockStart m) : m.Ok := by
  have last : m.last = 0 := by
    rw [ClockMachine.last, start.reads]
    rfl
  constructor
  · rw [last]
    exact start.clock
  · rw [start.locals]
    exact fun _ member => by cases member
  all_goals rw [start.reads]
  · exact .nil
  · exact fun _ member => by cases member
  · exact fun _ member => by cases member

/-- In every steady run the values the clock returns never go back, and none of them is
past the head timer it was read with. -/
theorem run_steady {m₀ m : ClockMachine cTimers} {labels : List (ClockLabel cTimers)}
    (start : ClockStart m₀) (run : Run (Guarded Steady ClockStep) m₀ labels m) :
    (m.reads.map VsRead.u64).Pairwise (· ≤ ·) ∧
      ∀ r ∈ m.reads, ∀ u64Expire ∈ r.u64Head, r.u64 ≤ u64Expire := by
  have ok := run.invariant ClockMachine.Ok (fun before step => clockStep_ok before step.1 step.2)
    start.ok
  exact ⟨ok.ordered, ok.ahead⟩

/-- The clock of `armedVs`, before any read. -/
def armedClock : ClockMachine 3 := ⟨armedVs, 0, []⟩

theorem armedClock_start : ClockStart armedClock := by
  obtain ⟨list, floor⟩ := armedVs_start.held
  have words : VsWords armedVs.vs := by
    refine ⟨by decide, by decide, by decide, ?_⟩
    simp [armedVs, stoppedVs, VsCall.apply, tmTimerVirtualSyncSet]
    decide
  refine ⟨⟨list, fun _ _ => Nat.zero_le _, words, by decide, by decide, by decide, fun _ => ?_,
    fun stopped => by cases stopped⟩, rfl, rfl⟩
  exact ⟨0, Nat.le_refl _, ⟨words, by decide, by decide, by decide, by decide⟩, by decide⟩

/-- Reads with and without the lock, and a pass that delivers a timer. -/
def steadyLabels : List (ClockLabel 3) :=
  [.get true false 5, .get false true 12, .run (.start 14), .run (.deliver [.set 1 40]),
    .get false false 15, .run (.finish 16), .call (.stop 2), .get false true 60]

theorem run_steady_armed : ∃ m, Run ClockStep armedClock steadyLabels m ∧
    (m.reads.map VsRead.u64).Pairwise (· ≤ ·) ∧
    ∀ r ∈ m.reads, ∀ u64Expire ∈ r.u64Head, r.u64 ≤ u64Expire := by
  have run : Run (Guarded Steady ClockStep) armedClock steadyLabels _ :=
    .next ⟨by decide, rfl⟩ (.next ⟨by decide, rfl⟩ (.next ⟨by decide, rfl⟩
      (.next ⟨by decide, rfl⟩ (.next ⟨by decide, rfl⟩ (.next ⟨by decide, rfl⟩
        (.next ⟨by decide, rfl⟩ (.next ⟨by decide, rfl⟩ (.done _))))))))
  exact ⟨_, run.mono And.right, run_steady armedClock_start run⟩

/-- A read without the lock passes the head timer, and the next one with the lock goes
back to it. -/
theorem lockless_passes : ClockStart armedClock ∧
    ∃ m, Run ClockStep armedClock [.get false false 25, .get false true 25] m ∧
      m.reads = [⟨25, some 10⟩, ⟨10, some 10⟩] :=
  ⟨armedClock_start, _, .next rfl (.next rfl (.done _)), by decide⟩

end Runs

end VBox.Vmm.Tm
