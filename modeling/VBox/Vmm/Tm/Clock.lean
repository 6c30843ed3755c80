import VBox.Vmm.Tm.DeliverRuns
import VBox.Vmm.Tm.VirtualSyncGet

/-!
The virtual sync clock as a function of the raw time.

A ticking clock shows the raw time less an offset that shrinks during a catch-up.
`ClockOk` says how the offset, the recorded time and the values returned so far stand to
each other; a lockless read records nothing, so that the last value returned can be ahead
of the recorded one.
-/

namespace VBox.Vmm.Tm

open VBox.Lib VBox.Lib.Links

variable {cTimers : Nat}

/-- The offset a read at a raw time takes. -/
def offAt (vs : VirtualSync cTimers) (u64 : Nat) : Nat := (catchUpAt vs u64).1

/-- The fields that are 32-bit words. -/
structure VsWords (vs : VirtualSync cTimers) : Prop where
  percentage : vs.u32VirtualSyncCatchUpPercentage < 2 ^ 32
  slack : vs.u32VirtualSyncScheduleSlack < 2 ^ 32
  first : vs.aVirtualSyncCatchUpPeriods.1.u32Percentage < 2 ^ 32
  periods : ∀ period ∈ vs.aVirtualSyncCatchUpPeriods.2, period.u32Percentage < 2 ^ 32

/-- The offset is at least what has been given up, and the recorded time is not ahead of
the raw time less the offset. -/
structure Offsets (vs : VirtualSync cTimers) (u64 : Nat) : Prop where
  words : VsWords vs
  small : u64 < 2 ^ 63
  prev : vs.u64VirtualSyncCatchUpPrev ≤ u64
  lag : vs.offVirtualSyncGivenUp ≤ vs.offVirtualSync
  recorded : vs.u64VirtualSync + vs.offVirtualSync ≤ u64

section Offset

variable {vs : VirtualSync cTimers} {u64 u64' : Nat}

theorem sub64_eq {a b : Nat} (le : b ≤ a) (small : a < 2 ^ 63) : sub64 a b = a - b := by
  rw [sub64]
  omega

theorem add64_eq {a b : Nat} (small : a + b < 2 ^ 64) : add64 a b = a + b :=
  Nat.mod_eq_of_lt small

/-- The part of a gap the clock makes up for. -/
def madeUp (vs : VirtualSync cTimers) (u64 : Nat) : Nat :=
  (u64 - vs.u64VirtualSyncCatchUpPrev) * vs.u32VirtualSyncCatchUpPercentage / 100

theorem madeUp_eq (offsets : Offsets vs u64) (gap : u64 - vs.u64VirtualSyncCatchUpPrev < 2 ^ 32) :
    multU64ByU32DivByU32 (sub64 u64 vs.u64VirtualSyncCatchUpPrev)
      vs.u32VirtualSyncCatchUpPercentage 100 = madeUp vs u64 ∧ madeUp vs u64 < 2 ^ 62 := by
  have product : (u64 - vs.u64VirtualSyncCatchUpPrev) * vs.u32VirtualSyncCatchUpPercentage <
      2 ^ 32 * 2 ^ 32 := Nat.mul_lt_mul'' gap offsets.words.percentage
  have small : madeUp vs u64 < 2 ^ 62 := by
    rw [madeUp]
    omega
  rw [sub64_eq offsets.prev offsets.small, multU64ByU32DivByU32]
  exact ⟨Nat.mod_eq_of_lt (small.trans (by decide)), small⟩

/-- A step of the catch-up, without words that wrap. -/
theorem catchUpStep_eq (offsets : Offsets vs u64) : catchUpStep vs u64 =
      if u64 - vs.u64VirtualSyncCatchUpPrev < 2 ^ 32 then
        if madeUp vs u64 + vs.offVirtualSyncGivenUp < vs.offVirtualSync then
          (vs.offVirtualSync - madeUp vs u64, some false)
        else (vs.offVirtualSyncGivenUp, some true)
      else (vs.offVirtualSync, none) := by
  have small := offsets.small
  have lag := offsets.lag
  have recorded := offsets.recorded
  rw [catchUpStep]
  dsimp only
  by_cases gap : u64 - vs.u64VirtualSyncCatchUpPrev < 2 ^ 32
  · obtain ⟨made, bound⟩ := madeUp_eq offsets gap
    have near : sub64 u64 vs.u64VirtualSyncCatchUpPrev / 2 ^ 32 = 0 := by
      rw [sub64_eq offsets.prev small]
      exact Nat.div_eq_of_lt gap
    rw [if_pos near, if_pos gap, made, add64_eq (by omega)]
    split
    case isTrue behind => rw [sub64_eq (by omega) (by omega)]
    case isFalse => rfl
  · have far : sub64 u64 vs.u64VirtualSyncCatchUpPrev / 2 ^ 32 ≠ 0 := by
      rw [sub64_eq offsets.prev small]
      omega
    rw [if_neg far, if_neg gap]

theorem offAt_eq (offsets : Offsets vs u64) : offAt vs u64 =
      if vs.fVirtualSyncCatchUp = true ∧ u64 - vs.u64VirtualSyncCatchUpPrev < 2 ^ 32 then
        max (vs.offVirtualSync - madeUp vs u64) vs.offVirtualSyncGivenUp
      else vs.offVirtualSync := by
  rw [offAt, catchUpAt]
  by_cases catchUp : vs.fVirtualSyncCatchUp = true
  · rw [if_pos catchUp, catchUpStep_eq offsets]
    by_cases gap : u64 - vs.u64VirtualSyncCatchUpPrev < 2 ^ 32
    · have both : vs.fVirtualSyncCatchUp = true ∧ u64 - vs.u64VirtualSyncCatchUpPrev < 2 ^ 32 :=
        ⟨catchUp, gap⟩
      rw [if_pos both, if_pos gap]
      by_cases behind : madeUp vs u64 + vs.offVirtualSyncGivenUp < vs.offVirtualSync
      · rw [if_pos behind]
        exact (Nat.max_eq_left (by omega)).symm
      · rw [if_neg behind]
        exact (Nat.max_eq_right (by omega)).symm
    · rw [if_neg gap, if_neg fun both => gap both.2]
  · rw [if_neg catchUp, if_neg fun both => catchUp both.1]

/-- The offset only shrinks, down to what has been given up. -/
theorem offAt_bounds (offsets : Offsets vs u64) :
    vs.offVirtualSyncGivenUp ≤ offAt vs u64 ∧ offAt vs u64 ≤ vs.offVirtualSync := by
  have lag := offsets.lag
  rw [offAt_eq offsets]
  split
  · exact ⟨Nat.le_max_right _ _, Nat.max_le.mpr ⟨Nat.sub_le _ _, lag⟩⟩
  · exact ⟨lag, Nat.le_refl _⟩

/-- A gap that is too long for a step of the catch-up does not put the clock back behind
a value it has returned. -/
def GapOk (vs : VirtualSync cTimers) (last u64 : Nat) : Prop :=
  vs.fVirtualSyncCatchUp = true → 2 ^ 32 ≤ u64 - vs.u64VirtualSyncCatchUpPrev →
    last + vs.offVirtualSync ≤ u64

theorem Offsets.mono (offsets : Offsets vs u64) (later : u64 ≤ u64') (small : u64' < 2 ^ 63) :
    Offsets vs u64' :=
  ⟨offsets.words, small, offsets.prev.trans later, offsets.lag, offsets.recorded.trans later⟩

/-- A value the clock has shown stays behind it. -/
theorem shown_mono {last : Nat} (offsets : Offsets vs u64) (later : u64 ≤ u64')
    (small : u64' < 2 ^ 63) (gap : GapOk vs last u64') (shown : last + offAt vs u64 ≤ u64) :
    last + offAt vs u64' ≤ u64' := by
  have offsets' := offsets.mono later small
  have bounds := offAt_bounds offsets
  rw [offAt_eq offsets']
  rw [offAt_eq offsets] at shown bounds
  by_cases catchUp : vs.fVirtualSyncCatchUp = true
  · by_cases near : u64' - vs.u64VirtualSyncCatchUpPrev < 2 ^ 32
    · have near₀ : u64 - vs.u64VirtualSyncCatchUpPrev < 2 ^ 32 := by omega
      have more : madeUp vs u64 ≤ madeUp vs u64' :=
        Nat.div_le_div_right (Nat.mul_le_mul_right _ (Nat.sub_le_sub_right later _))
      rw [if_pos ⟨catchUp, near₀⟩] at shown
      rw [if_pos ⟨catchUp, near⟩]
      omega
    · rw [if_neg fun both => near both.2]
      exact gap catchUp (Nat.not_lt.mp near)
  · rw [if_neg fun both => catchUp both.1] at shown ⊢
    omega

end Offset

/-- The state of the clock at a raw time, when `last` is the last value returned. -/
structure ClockOk (vs : VirtualSync cTimers) (now last : Nat) : Prop where
  list : ∃ l, QueueOk vs.queue l []
  armed : ∀ a, vs.queue.Armed a → last ≤ (vs.queue.timer a).u64Expire
  words : VsWords vs
  small : now < 2 ^ 63
  prev : vs.u64VirtualSyncCatchUpPrev ≤ now
  lag : vs.offVirtualSyncGivenUp ≤ vs.offVirtualSync
  ticking : vs.fVirtualSyncTicking = true →
    ∃ u64 ≤ now, Offsets vs u64 ∧ last + offAt vs u64 ≤ u64
  stopped : vs.fVirtualSyncTicking = false →
    last ≤ vs.u64VirtualSync ∧ vs.u64VirtualSync + vs.offVirtualSyncGivenUp ≤ now ∧
      ∀ a, vs.queue.Armed a → vs.u64VirtualSync ≤ (vs.queue.timer a).u64Expire

section Reads

variable {vs : VirtualSync cTimers} {now last u64Raw floor : Nat}

theorem ClockOk.last_le (ok : ClockOk vs now last) : last ≤ now := by
  cases ticking : vs.fVirtualSyncTicking with
  | true =>
    obtain ⟨u64, le, -, shown⟩ := ok.ticking ticking
    omega
  | false =>
    obtain ⟨before, recorded, -⟩ := ok.stopped ticking
    omega

/-- A floor of all armed timers is one of the queue. -/
theorem le_queueExpire {pQueue : TmTimerQueue cTimers} (list : ∃ l, QueueOk pQueue l [])
    (small : floor < 2 ^ 63) (armed : ∀ a, pQueue.Armed a → floor ≤ (pQueue.timer a).u64Expire) :
    floor ≤ pQueue.u64Expire := by
  obtain ⟨l, ok⟩ := list
  have head := ok.head
  cases l with
  | nil =>
    rw [HeadExpire] at head
    rw [head, int64Max]
    omega
  | cons a l =>
    have isArmed : pQueue.Armed a := ok.mem_iff_armed.mp (List.mem_cons_self ..)
    rw [head isArmed]
    exact armed a isArmed

/-- The queue's expire time is that of the head. -/
theorem queueExpire_le {pQueue : TmTimerQueue cTimers} (list : ∃ l, QueueOk pQueue l [])
    {h : Fin cTimers} (head : pQueue.links.head = some h) :
    pQueue.u64Expire = (pQueue.timer h).u64Expire ∧ pQueue.Armed h ∧
      ∀ a, pQueue.Armed a → (pQueue.timer h).u64Expire ≤ (pQueue.timer a).u64Expire := by
  obtain ⟨l, ok⟩ := list
  rw [ok.list.head] at head
  cases l with
  | nil => cases head
  | cons a l =>
    cases head
    have isArmed : pQueue.Armed h := ok.mem_iff_armed.mp (List.mem_cons_self ..)
    refine ⟨ok.head isArmed, isArmed, ?_⟩
    intro c armed
    rcases List.mem_cons.mp (ok.mem_iff_armed.mpr armed) with rfl | member
    · exact Nat.le_refl _
    · exact (List.pairwise_cons.mp ok.sorted).1 c member isArmed armed

/-- The clock is not adjusted: it is not behind what it has recorded. -/
theorem adjustLast_eq (offsets : Offsets vs u64Raw) :
    adjustLast vs.u64VirtualSync (sub64 u64Raw (offAt vs u64Raw)) = u64Raw - offAt vs u64Raw := by
  have bounds := offAt_bounds offsets
  have recorded := offsets.recorded
  rw [sub64_eq (by omega) offsets.small, adjustLast, if_neg (by omega)]

theorem ClockOk.at_read (ok : ClockOk vs now last) (ticking : vs.fVirtualSyncTicking = true)
    (later : now ≤ u64Raw) (small : u64Raw < 2 ^ 63) (gap : GapOk vs last u64Raw) :
    Offsets vs u64Raw ∧ last + offAt vs u64Raw ≤ u64Raw := by
  obtain ⟨u64, le, offsets, shown⟩ := ok.ticking ticking
  exact ⟨offsets.mono (le.trans later) small, shown_mono offsets (le.trans later) small gap shown⟩

theorem stopAtHead_ok (ok : ClockOk vs now last) (offsets : Offsets vs u64Raw)
    (due : vs.queue.u64Expire ≤ u64Raw - offAt vs u64Raw) :
    ClockOk (stopAtHead vs).1 u64Raw (stopAtHead vs).2.u64 ∧
      last ≤ (stopAtHead vs).2.u64 ∧ (stopAtHead vs).2.u64 = vs.queue.u64Expire := by
  have bounds := offAt_bounds offsets
  have recorded := offsets.recorded
  have small := ok.small
  have lastLe := ok.last_le
  have floor : ∀ a, vs.queue.Armed a → vs.queue.u64Expire ≤ (vs.queue.timer a).u64Expire := by
    intro a armed
    obtain ⟨l, list⟩ := ok.list
    cases l with
    | nil => exact absurd (list.mem_iff_armed.mpr armed) List.not_mem_nil
    | cons h l =>
      obtain ⟨expire, -, first⟩ := queueExpire_le ⟨_, list⟩ list.list.head
      rw [expire]
      exact first a armed
  refine ⟨⟨ok.list, floor, ⟨ok.words.1, ok.words.2, ok.words.3, ok.words.4⟩, offsets.small,
    offsets.prev, ok.lag, (fun ticking => by cases ticking), fun _ => ⟨Nat.le_refl _, ?_, floor⟩⟩,
    le_queueExpire ok.list (by omega) ok.armed, rfl⟩
  show vs.queue.u64Expire + vs.offVirtualSyncGivenUp ≤ u64Raw
  omega

/-- A clock that has recorded the value it returned. -/
theorem recorded_ok {vs' : VirtualSync cTimers} (offsets' : Offsets vs' u64Raw)
    (ok : ClockOk vs now last) (sameQueue : vs'.queue = vs.queue)
    (ticking : vs'.fVirtualSyncTicking = true)
    (time : vs'.u64VirtualSync = u64Raw - offAt vs u64Raw)
    (notDue : u64Raw - offAt vs u64Raw < vs.queue.u64Expire) :
    ClockOk vs' u64Raw (u64Raw - offAt vs u64Raw) := by
  have bounds := offAt_bounds offsets'
  have recorded := offsets'.recorded
  have floor : ∀ a, vs.queue.Armed a → u64Raw - offAt vs u64Raw ≤ (vs.queue.timer a).u64Expire := by
    intro a armed
    obtain ⟨l, list⟩ := ok.list
    cases l with
    | nil => exact absurd (list.mem_iff_armed.mpr armed) List.not_mem_nil
    | cons h l =>
      obtain ⟨expire, -, first⟩ := queueExpire_le ⟨_, list⟩ list.list.head
      rw [expire] at notDue
      exact notDue.le.trans (first a armed)
  refine ⟨?_, ?_, offsets'.words, offsets'.small, offsets'.prev, offsets'.lag, fun _ => ?_, ?_⟩
  · rw [sameQueue]
    exact ok.list
  · rw [sameQueue]
    exact floor
  · refine ⟨u64Raw, Nat.le_refl _, offsets', ?_⟩
    rw [← time]
    omega
  · intro stopped
    rw [ticking] at stopped
    cases stopped

theorem getLocked_ok (ok : ClockOk vs now last) (ticking : vs.fVirtualSyncTicking = true)
    (later : now ≤ u64Raw) (small : u64Raw < 2 ^ 63) (gap : GapOk vs last u64Raw) :
    ClockOk (tmVirtualSyncGetLocked vs u64Raw).1 u64Raw (tmVirtualSyncGetLocked vs u64Raw).2.u64 ∧
      last ≤ (tmVirtualSyncGetLocked vs u64Raw).2.u64 ∧
      (tmVirtualSyncGetLocked vs u64Raw).2.u64 ≤ vs.queue.u64Expire := by
  obtain ⟨offsets, shown⟩ := ok.at_read ticking later small gap
  have bounds := offAt_bounds offsets
  have adjusted := adjustLast_eq offsets
  rw [tmVirtualSyncGetLocked, if_pos ticking]
  by_cases catchUp : vs.fVirtualSyncCatchUp = true
  · -- catching up
    have step : (catchUpStep vs u64Raw).1 = offAt vs u64Raw := by
      rw [offAt, catchUpAt, if_pos catchUp]
    rw [if_pos catchUp, tmVirtualSyncGetHandleCatchUpLocked]
    cases result : catchUpStep vs u64Raw with
    | mk off update =>
      rw [result] at step
      dsimp only at step ⊢
      rw [step, adjusted]
      split
      case isTrue notDue =>
        have off' : (if update.isSome = true then offAt vs u64Raw else vs.offVirtualSync) =
            offAt vs u64Raw := by
          cases update with
          | some stop => rfl
          | none =>
            have far := catchUpStep_eq offsets
            rw [result] at far
            split_ifs at far
            · cases far
            · cases far
            · rw [Prod.mk.injEq] at far
              exact (step.symm.trans far.1).symm
        refine ⟨recorded_ok
          ⟨⟨ok.words.1, ok.words.2, ok.words.3, ok.words.4⟩, small, ?_, ?_, ?_⟩
          ok rfl ticking rfl notDue, by dsimp only; omega, notDue.le⟩
        · dsimp only
          split
          · omega
          · exact offsets.prev
        · show vs.offVirtualSyncGivenUp ≤ if update.isSome = true then _ else _
          rw [off']
          exact bounds.1
        · show u64Raw - offAt vs u64Raw + (if update.isSome = true then _ else _) ≤ u64Raw
          rw [off']
          omega
      case isFalse due =>
        obtain ⟨ok', forward, head⟩ := stopAtHead_ok ok offsets (Nat.not_lt.mp due)
        exact ⟨ok', forward, head.le⟩
  · have same : offAt vs u64Raw = vs.offVirtualSync := by
      rw [offAt, catchUpAt, if_neg catchUp]
    have adjusted' : adjustLast vs.u64VirtualSync (sub64 u64Raw vs.offVirtualSync) =
        u64Raw - offAt vs u64Raw := by rw [← adjusted, same]
    rw [if_neg catchUp]
    dsimp only
    rw [adjusted']
    split
    case isTrue notDue =>
      refine ⟨recorded_ok
        ⟨⟨ok.words.1, ok.words.2, ok.words.3, ok.words.4⟩, small, offsets.prev, offsets.lag, ?_⟩
        ok rfl ticking rfl notDue, by dsimp only; omega, notDue.le⟩
      show u64Raw - offAt vs u64Raw + vs.offVirtualSync ≤ u64Raw
      omega
    case isFalse due =>
      obtain ⟨ok', forward, head⟩ := stopAtHead_ok ok offsets (Nat.not_lt.mp due)
      exact ⟨ok', forward, head.le⟩

/-- A later raw time and an earlier last value change nothing. -/
theorem ClockOk.later {now' last' : Nat} (ok : ClockOk vs now last) (later : now ≤ now')
    (small : now' < 2 ^ 63) (earlier : last' ≤ last) : ClockOk vs now' last' := by
  refine ⟨ok.list, fun a armed => earlier.trans (ok.armed a armed), ok.words, small,
    ok.prev.trans later, ok.lag, fun ticking => ?_, fun stopped => ?_⟩
  · obtain ⟨u64, le, offsets, shown⟩ := ok.ticking ticking
    exact ⟨u64, le.trans later, offsets, (Nat.add_le_add_right earlier _).trans shown⟩
  · obtain ⟨before, recorded, floor⟩ := ok.stopped stopped
    exact ⟨earlier.trans before, recorded.trans later, floor⟩

theorem ClockOk.withFF (ok : ClockOk vs now last) (fVirtualSyncFF fTimerFF : Bool) :
    ClockOk { vs with fVirtualSyncFF := fVirtualSyncFF, fTimerFF := fTimerFF } now last :=
  ⟨ok.list, ok.armed, ⟨ok.words.1, ok.words.2, ok.words.3, ok.words.4⟩, ok.small, ok.prev, ok.lag,
    fun ticking =>
      have ⟨u64, le, offsets, shown⟩ := ok.ticking ticking
      ⟨u64, le, ⟨⟨ok.words.1, ok.words.2, ok.words.3, ok.words.4⟩, offsets.small, offsets.prev,
        offsets.lag, offsets.recorded⟩, shown⟩,
    ok.stopped⟩

/-- A read without the lock shows the clock where it is. -/
theorem getLockless_ok (ok : ClockOk vs now last) (ticking : vs.fVirtualSyncTicking = true)
    (later : now ≤ u64Raw) (small : u64Raw < 2 ^ 63) (gap : GapOk vs last u64Raw)
    (notPast : u64Raw - offAt vs u64Raw ≤ vs.queue.u64Expire) :
    ClockOk (getLockless vs u64Raw).1 u64Raw (getLockless vs u64Raw).2.u64 ∧
      last ≤ (getLockless vs u64Raw).2.u64 ∧
      (getLockless vs u64Raw).2.u64 ≤ vs.queue.u64Expire := by
  obtain ⟨offsets, shown⟩ := ok.at_read ticking later small gap
  have shows : ClockOk vs u64Raw (u64Raw - offAt vs u64Raw) := by
    refine ⟨ok.list, fun a armed => ?_, ok.words, small, offsets.prev, ok.lag, fun _ => ?_,
      fun stopped => ?_⟩
    · obtain ⟨l, list⟩ := ok.list
      cases l with
      | nil => exact absurd (list.mem_iff_armed.mpr armed) List.not_mem_nil
      | cons h l =>
        obtain ⟨expire, -, first⟩ := queueExpire_le ⟨_, list⟩ list.list.head
        rw [expire] at notPast
        exact notPast.trans (first a armed)
    · exact ⟨u64Raw, Nat.le_refl _, offsets, by omega⟩
    · rw [ticking] at stopped
      cases stopped
  have time : sub64 u64Raw (catchUpAt vs u64Raw).1 = u64Raw - offAt vs u64Raw := by
    have plain := sub64_eq (by omega : offAt vs u64Raw ≤ u64Raw) small
    exact plain
  have forward : last ≤ u64Raw - offAt vs u64Raw := by omega
  rw [getLockless]
  dsimp only
  rw [time]
  split
  · refine ⟨?_, forward, notPast⟩
    dsimp only
    split
    · exact shows
    · exact shows.withFF true true
  · exact ⟨shows, forward, notPast⟩

/-- A read keeps the order of the values, and does not pass the head timer. -/
theorem get_ok {fCheckTimers fLock : Bool} (ok : ClockOk vs now last) (later : now ≤ u64Raw)
    (small : u64Raw < 2 ^ 63) (steady : vs.fVirtualSyncTicking = true → GapOk vs last u64Raw ∧
      (fLock = false → u64Raw - offAt vs u64Raw ≤ vs.queue.u64Expire)) :
    ClockOk (tmVirtualSyncGetEx vs fCheckTimers fLock u64Raw).1 u64Raw
        (tmVirtualSyncGetEx vs fCheckTimers fLock u64Raw).2.u64 ∧
      last ≤ (tmVirtualSyncGetEx vs fCheckTimers fLock u64Raw).2.u64 ∧
      (tmVirtualSyncGetEx vs fCheckTimers fLock u64Raw).2.u64 ≤ vs.queue.u64Expire := by
  rw [tmVirtualSyncGetEx]
  by_cases ticking : vs.fVirtualSyncTicking = true
  · obtain ⟨gap, notPast⟩ := steady ticking
    have ticks : ∀ vs' : VirtualSync cTimers, ClockOk vs' now last →
        vs'.fVirtualSyncTicking = true → GapOk vs' last u64Raw →
        (fLock = false → u64Raw - offAt vs' u64Raw ≤ vs'.queue.u64Expire) →
        ClockOk (if fLock then tmVirtualSyncGetLocked vs' u64Raw else getLockless vs' u64Raw).1
            u64Raw
            (if fLock then tmVirtualSyncGetLocked vs' u64Raw else getLockless vs' u64Raw).2.u64 ∧
          last ≤ (if fLock then tmVirtualSyncGetLocked vs' u64Raw
            else getLockless vs' u64Raw).2.u64 ∧
          (if fLock then tmVirtualSyncGetLocked vs' u64Raw
            else getLockless vs' u64Raw).2.u64 ≤ vs'.queue.u64Expire := by
      intro vs' ok' ticking' gap' notPast'
      cases fLock with
      | true => exact getLocked_ok ok' ticking' later small gap'
      | false => exact getLockless_ok ok' ticking' later small gap' (notPast' rfl)
    rw [if_pos ticking]
    by_cases due : (fCheckTimers && !vs.fTimerFF && vs.u64VirtualExpire ≤ u64Raw) = true
    · rw [if_pos due]
      exact ticks _ (ok.withFF vs.fVirtualSyncFF true) ticking gap notPast
    · rw [if_neg due]
      exact ticks vs ok ticking gap notPast
  · have stopped : vs.fVirtualSyncTicking = false := by simpa using ticking
    obtain ⟨before, recorded, floor⟩ := ok.stopped stopped
    rw [if_neg ticking]
    have bound : vs.u64VirtualSync < 2 ^ 63 := by
      have small := ok.small
      omega
    refine ⟨⟨ok.list, floor, ok.words, small, ok.prev.trans later, ok.lag, fun ticks => ?_,
      fun _ => ⟨Nat.le_refl _, recorded.trans later, floor⟩⟩, before,
      le_queueExpire ok.list bound floor⟩
    exact absurd ticks ticking

end Reads

section Calls

variable {vs vs' : VirtualSync cTimers} {now last : Nat} {pTimer : Fin cTimers}

/-- Only the queue and the flag of the frequency hints may differ. -/
def SameClock (vs vs' : VirtualSync cTimers) : Prop :=
  vs' = { vs with
    queue := vs'.queue
    fHzHintNeedsUpdating := vs'.fHzHintNeedsUpdating }

theorem SameClock.trans {vs'' : VirtualSync cTimers} (first : SameClock vs vs')
    (second : SameClock vs' vs'') : SameClock vs vs'' := by
  rw [SameClock] at *
  rw [first] at second
  exact second

theorem dropHzHint_clock (vs : VirtualSync cTimers) (pTimer : Fin cTimers) :
    SameClock vs (dropHzHint vs pTimer) := by
  rw [dropHzHint]
  split <;> rfl

theorem apply_clock (vs : VirtualSync cTimers) (call : VsCall cTimers) :
    SameClock vs (call.apply vs) := by
  cases call with
  | set pTimer u64Expire =>
    show SameClock vs (tmTimerVirtualSyncSet vs pTimer u64Expire).1
    rw [tmTimerVirtualSyncSet]
    split <;> rfl
  | stop pTimer =>
    show SameClock vs (tmTimerVirtualSyncStop vs pTimer).1
    refine (dropHzHint_clock vs pTimer).trans ?_
    rw [tmTimerVirtualSyncStop]
    split <;> rfl

theorem calls_clock (vs : VirtualSync cTimers) (calls : List (VsCall cTimers)) :
    SameClock vs (calls.foldl VsCall.apply vs) := by
  induction calls generalizing vs with
  | nil => rfl
  | cons call calls ih => exact (apply_clock vs call).trans (ih _)

theorem afterCallback_clock (vs : VirtualSync cTimers) (pTimer : Fin cTimers) :
    SameClock vs (afterCallback vs pTimer) := by
  rw [afterCallback]
  split
  · have stopped : SameClock vs { vs with queue := vs.queue.setState pTimer .stopped } := rfl
    exact stopped.trans (dropHzHint_clock _ pTimer)
  · rfl

/-- Another queue under the same clock. -/
theorem ClockOk.withQueue (ok : ClockOk vs now last) (same : SameClock vs vs')
    (held : Held last vs'.queue)
    (stopped : vs.fVirtualSyncTicking = false → Held vs.u64VirtualSync vs'.queue) :
    ClockOk vs' now last := by
  have offset : ∀ u64, offAt vs' u64 = offAt vs u64 := by
    intro u64
    rw [same]
    rfl
  have words : VsWords vs' := by
    rw [same]
    exact ⟨ok.words.1, ok.words.2, ok.words.3, ok.words.4⟩
  refine ⟨held.1, held.2, words, ok.small, ?_, ?_, ?_, ?_⟩
  · rw [same]
    exact ok.prev
  · rw [same]
    exact ok.lag
  · intro ticks
    rw [same] at ticks
    obtain ⟨u64, le, offsets, shown⟩ := ok.ticking ticks
    refine ⟨u64, le, ⟨words, offsets.small, ?_, ?_, ?_⟩, ?_⟩
    · rw [same]
      exact offsets.prev
    · rw [same]
      exact offsets.lag
    · rw [same]
      exact offsets.recorded
    · rw [offset]
      exact shown
  · intro stops
    rw [same] at stops
    obtain ⟨before, recorded, -⟩ := ok.stopped stops
    have floor := (stopped stops).2
    refine ⟨?_, ?_, ?_⟩
    · rw [same]
      exact before
    · rw [same]
      exact recorded
    · rw [show vs'.u64VirtualSync = vs.u64VirtualSync by rw [same]]
      exact floor

/-- Arming and stopping a timer between passes. -/
theorem call_ok (call : VsCall cTimers) (ok : ClockOk vs now last) (later : call.notBefore last)
    (stopped : vs.fVirtualSyncTicking = false → call.notBefore vs.u64VirtualSync) :
    ClockOk (call.apply vs) now last := by
  refine ok.withQueue (apply_clock vs call) (apply_held ⟨ok.list, ok.armed⟩ later).1 ?_
  intro stops
  obtain ⟨-, -, floor⟩ := ok.stopped stops
  exact (apply_held ⟨ok.list, floor⟩ (stopped stops)).1

end Calls

end VBox.Vmm.Tm
