import VBox.Vmm.Tm.Destroy

/-!
When destroying a timer goes wrong.

Once the head of the active list is lost, its timers are linked to each other but are not
reached any more, unless a pass takes the first of them off before it inserts another timer.
The proofs follow a timer that no walk comes to.
-/

open List Option Function

namespace VBox.Vmm.Tm

open VBox.Lib VBox.Lib.Links

variable {cTimers cOthers : Nat}

/-- What every pass keeps, whatever the links from the head come to. -/
structure Sound (pQueue : TmTimerQueue cTimers) : Prop where
  paired : pQueue.links.Paired
  first : ∀ a, pQueue.links.head = some a → pQueue.links.prev a = none
  idle : ∀ a, ¬ (pQueue.timer a).enmState.isLinked →
    pQueue.links.prev a = none ∧ pQueue.links.next a = none ∧ pQueue.links.head ≠ some a

/-- An armed timer is lost, and the rest of the batch does not touch it. -/
def Doomed (pQueue : TmTimerQueue cTimers) (waiting : List (Fin cTimers)) : Prop :=
  Sound pQueue ∧ ∃ f, pQueue.links.Stray f ∧ (pQueue.timer f).enmState.isLinked ∧ f ∉ waiting

/-- A walk from the head may come to the element. -/
def Reached (s : Links (Fin cTimers)) (cur : Fin cTimers) : Prop :=
  s.head ≠ none ∧ (s.head = some cur ∨ ∃ a, s.next a = some cur)

/-- What `tmTimerQueueLinkActive` does with the links. The last case is a list that does not
end. -/
inductive LinkedAs (s s' : Links (Fin cTimers)) (x : Fin cTimers) : Prop where
  | first : s.head = none → s' = s.insertFirst x → LinkedAs s s' x
  | before (cur : Fin cTimers) : Reached s cur → s' = s.insertBefore x cur → LinkedAs s s' x
  | last (cur : Fin cTimers) : Reached s cur → s.next cur = none → s' = s.insertLast x cur →
      LinkedAs s s' x
  | endless : s.head ≠ none → s' = s → LinkedAs s s' x

section Links

variable {pQueue : TmTimerQueue cTimers} {pTimer : Fin cTimers}

variable {u64Expire : Nat}

theorem linkFrom_linkedAs {fuel : Nat} {pCur : Fin cTimers} (reached : Reached pQueue.links pCur) :
    LinkedAs pQueue.links (tmTimerQueueLinkFrom pQueue pTimer u64Expire fuel pCur).links
      pTimer := by
  induction fuel generalizing pCur with
  | zero => exact .endless reached.1 rfl
  | succ fuel ih =>
    rw [tmTimerQueueLinkFrom]
    split
    · exact .before pCur reached rfl
    · split
      · rename_i next
        exact .last pCur reached next rfl
      · rename_i pNext next
        exact ih ⟨reached.1, .inr ⟨pCur, next⟩⟩

theorem linkActive_linkedAs (pQueue : TmTimerQueue cTimers) (u64Expire : Nat) :
    LinkedAs pQueue.links (tmTimerQueueLinkActive pQueue pTimer u64Expire).links pTimer := by
  rw [tmTimerQueueLinkActive]
  split
  · rename_i pCur head
    exact linkFrom_linkedAs ⟨by rw [head]; exact some_ne_none _, .inl head⟩
  · rename_i head
    exact .first head rfl

variable {t : TmTimer}

theorem Sound.set (sound : Sound pQueue)
    (linked : t.enmState.isLinked = (pQueue.timer pTimer).enmState.isLinked) :
    Sound (pQueue.setTimer pTimer t) where
  paired := sound.paired
  first := sound.first
  idle := fun a idle => sound.idle a <| by
    by_cases same : a = pTimer
    · rwa [same, setTimer_self, linked, ← same] at idle
    · rwa [setTimer_of_ne same] at idle

variable {enmState : TmTimerState}

theorem Sound.takeOff (sound : Sound pQueue) : Sound (takenOff pQueue pTimer enmState) where
  paired := sound.paired.unlink
  first := by
    intro a head
    have pair := sound.paired pTimer a
    have first := sound.first a
    change (pQueue.links.unlink pTimer).head = some a at head
    show (pQueue.links.unlink pTimer).prev a = none
    unfold Links.unlink at head ⊢
    cases prev : pQueue.links.prev pTimer <;> cases next : pQueue.links.next pTimer <;>
      simp only [prev, next, update_apply] at head ⊢ <;> grind
  idle := by
    intro a idle
    show (pQueue.links.unlink pTimer).prev a = none ∧ (pQueue.links.unlink pTimer).next a = none ∧
      (pQueue.links.unlink pTimer).head ≠ some a
    have self := sound.paired pTimer pTimer
    have first := sound.first pTimer
    have pair := sound.paired pTimer a
    have pair' := sound.paired a pTimer
    have old : a ≠ pTimer → pQueue.links.prev a = none ∧ pQueue.links.next a = none ∧
        pQueue.links.head ≠ some a := by
      intro other
      refine sound.idle a ?_
      have same : ((takenOff pQueue pTimer enmState).timer a).enmState =
          (pQueue.timer a).enmState := congrArg TmTimer.enmState (update_of_ne other ..)
      rw [← same]
      exact idle
    unfold Links.unlink
    cases prev : pQueue.links.prev pTimer <;> cases next : pQueue.links.next pTimer <;>
      simp only [update_apply] <;> grind

theorem Sound.insert (sound : Sound pQueue) (unlinked : ¬ (pQueue.timer pTimer).enmState.isLinked)
    (linked : t.enmState.isLinked) :
    Sound (tmTimerQueueLinkActive (pQueue.setTimer pTimer t) pTimer u64Expire) := by
  obtain ⟨prev, next, notHead⟩ := sound.idle pTimer unlinked
  have old : ∀ a, ¬ ((tmTimerQueueLinkActive (pQueue.setTimer pTimer t) pTimer
      u64Expire).timer a).enmState.isLinked → a ≠ pTimer ∧ pQueue.links.prev a = none ∧
        pQueue.links.next a = none ∧ pQueue.links.head ≠ some a := by
    intro a idle
    rw [tmTimerQueueLinkActive_timer] at idle
    by_cases same : a = pTimer
    · rw [same, setTimer_self] at idle
      exact absurd linked idle
    · rw [setTimer_of_ne same] at idle
      exact ⟨same, sound.idle a idle⟩
  have linkedAs : LinkedAs pQueue.links _ pTimer :=
    linkActive_linkedAs (pQueue.setTimer pTimer t) u64Expire
  have apart : ∀ a, pQueue.links.prev a = none → pQueue.links.head ≠ some a →
      ∀ {cur}, Reached pQueue.links cur → a ≠ cur := by
    rintro a prevA notHead cur ⟨-, reached⟩ rfl
    rcases reached with head | ⟨b, before⟩
    · exact notHead head
    · rw [(sound.paired b a).mp before] at prevA
      cases prevA
  rcases linkedAs with ⟨empty, links⟩ | ⟨cur, reached, links⟩ | ⟨cur, reached, last, links⟩ |
    ⟨-, links⟩
  · refine ⟨?_, ?_, fun a idle => ?_⟩ <;> rw [links]
    · exact sound.paired
    · rintro a ⟨⟩
      exact prev
    · obtain ⟨other, prevA, nextA, -⟩ := old a idle
      exact ⟨prevA, nextA, fun same => other (some.inj same).symm⟩
  · refine ⟨?_, ?_, fun a idle => ?_⟩ <;> rw [links]
    · exact sound.paired.insertBefore next prev (apart pTimer prev notHead reached)
    · intro a head
      have first := sound.first a
      unfold Links.insertBefore at head ⊢
      cases before : pQueue.links.prev cur <;> simp only [before, update_apply] at head ⊢ <;> grind
    · obtain ⟨other, prevA, nextA, headA⟩ := old a idle
      have pair := sound.paired a cur
      have notA := apart a prevA headA reached
      unfold Links.insertBefore
      cases before : pQueue.links.prev cur <;> simp only [update_apply] <;> grind
  · refine ⟨?_, ?_, fun a idle => ?_⟩ <;> rw [links]
    · exact sound.paired.insertLast prev last
    · intro a head
      have other : a ≠ pTimer := fun same => notHead (same ▸ head)
      exact (update_of_ne other ..).trans (sound.first a head)
    · obtain ⟨other, prevA, nextA, headA⟩ := old a idle
      exact ⟨(update_of_ne other ..).trans prevA,
        (update_of_ne (apart a prevA headA reached) ..).trans nextA, headA⟩
  · refine ⟨?_, ?_, fun a idle => ?_⟩ <;> rw [links]
    · exact sound.paired
    · exact sound.first
    · exact (old a idle).2

/-- Inserting a timer does not bring a stray one back. -/
theorem Sound.insert_stray {f : Fin cTimers} (sound : Sound pQueue) (stray : pQueue.links.Stray f)
    (other : pTimer ≠ f) :
    (tmTimerQueueLinkActive (pQueue.setTimer pTimer t) pTimer u64Expire).links.Stray f := by
  have linkedAs : LinkedAs pQueue.links _ pTimer :=
    linkActive_linkedAs (pQueue.setTimer pTimer t) u64Expire
  rcases linkedAs with ⟨-, links⟩ | ⟨cur, ⟨-, reached⟩, links⟩ | ⟨cur, -, -, links⟩ | ⟨-, links⟩ <;>
    rw [links]
  · exact stray.insertFirst other
  · refine stray.insertBefore other ?_
    rintro rfl
    rcases reached with head | ⟨a, before⟩
    · exact stray.2 head
    · have prev := (sound.paired a cur).mp before
      rw [stray.1] at prev
      cases prev
  · exact stray.insertLast other
  · exact stray

/-- Scheduling a timer keeps what is sound, and every other stray timer. -/
theorem Sound.scheduleOne (sound : Sound pQueue)
    (waits : (pQueue.timer pTimer).enmState.isScheduled ∨
      (pQueue.timer pTimer).enmState = .destroy) : Sound (tmTimerQueueScheduleOne pQueue pTimer) ∧
      ∀ f, pQueue.links.Stray f → pTimer ≠ f →
        (tmTimerQueueScheduleOne pQueue pTimer).links.Stray f := by
  have inserted : ∀ {pQueue : TmTimerQueue cTimers}, Sound pQueue →
      (pQueue.timer pTimer).enmState = .pendingSchedule →
      Sound (scheduleInsert pQueue pTimer).1 ∧ ∀ f, pQueue.links.Stray f → pTimer ≠ f →
        (scheduleInsert pQueue pTimer).1.links.Stray f := by
    intro pQueue sound state
    rw [scheduleInsert_eq state]
    exact ⟨sound.insert (by rw [state]; exact nofun) rfl, fun f => sound.insert_stray⟩
  have stopped : ∀ {pQueue : TmTimerQueue cTimers}, Sound pQueue →
      (pQueue.timer pTimer).enmState = .pendingStopSchedule →
      Sound (scheduleStop pQueue pTimer).1 ∧
        (scheduleStop pQueue pTimer).1.links = pQueue.links := by
    intro pQueue sound state
    rw [scheduleStop_eq state]
    exact ⟨sound.set (by rw [state]; rfl), rfl⟩
  cases state : (pQueue.timer pTimer).enmState <;> rw [state] at waits
  case pendingSchedule =>
    rw [scheduleOne_pendingSchedule state]
    exact inserted sound state
  case pendingStopSchedule =>
    rw [scheduleOne_pendingStopSchedule state]
    obtain ⟨sound', links⟩ := stopped sound state
    exact ⟨sound', fun f stray _ => links ▸ stray⟩
  case pendingReschedule =>
    rw [scheduleOne_pendingReschedule state]
    obtain ⟨sound', strays⟩ := inserted sound.takeOff takenOff_state
    exact ⟨sound', fun f stray other => strays f (stray.unlink sound.paired other) other⟩
  case pendingStop =>
    rw [scheduleOne_pendingStop state]
    obtain ⟨sound', links⟩ := stopped sound.takeOff takenOff_state
    exact ⟨sound', fun f stray other => links ▸ stray.unlink sound.paired other⟩
  case destroy =>
    rw [scheduleOne_destroy state]
    exact ⟨sound, fun f stray _ => stray⟩
  all_goals exact absurd waits (by decide)

theorem Doomed.foldl {waiting rest : List (Fin cTimers)} (doomed : Doomed pQueue (waiting ++ rest))
    (waits : ∀ a ∈ waiting, (pQueue.timer a).enmState.isScheduled ∨
      (pQueue.timer a).enmState = .destroy) (once : waiting.Nodup) :
    Doomed (waiting.foldl tmTimerQueueScheduleOne pQueue) rest := by
  induction waiting generalizing pQueue with
  | nil => exact doomed
  | cons x waiting ih =>
    obtain ⟨notWaiting, once⟩ := nodup_cons.mp once
    have waitsX := waits x (mem_cons_self ..)
    obtain ⟨sound, f, stray, linked, absent⟩ := doomed
    rw [cons_append, mem_cons, not_or] at absent
    obtain ⟨sound', strays⟩ := sound.scheduleOne waitsX
    have others := (scheduleOne_states waitsX).2.2
    refine ih ⟨sound', f, strays f stray (Ne.symm absent.1), ?_, absent.2⟩ (fun a member => ?_) once
    · rw [others f absent.1]
      exact linked
    · rw [others a fun same => notWaiting (same ▸ member)]
      exact waits a (mem_cons_of_mem x member)

/-- The list of `pHead` is not reached, and all but the first timer of a list come behind
another. -/
structure Headless (pQueue : TmTimerQueue cTimers) (pHead : Fin cTimers) : Prop where
  sound : Sound pQueue
  stray : pQueue.links.Stray pHead
  others : ∀ a, (pQueue.timer a).enmState.isLinked → pQueue.links.prev a = none →
    a = pHead ∨ pQueue.links.head = some a

variable {pHead : Fin cTimers}

theorem Headless.takeOff (headless : Headless pQueue pHead)
    (linked : (pQueue.timer pTimer).enmState.isLinked) (unlinked : enmState.isLinked = false)
    (notHead : pTimer ≠ pHead) (notFirst : pQueue.links.head ≠ some pTimer) :
    Headless (takenOff pQueue pTimer enmState) pHead ∧
      (takenOff pQueue pTimer enmState).links.head = pQueue.links.head := by
  obtain ⟨p, prev⟩ : ∃ p, pQueue.links.prev pTimer = some p := by
    rw [← ne_none_iff_exists']
    intro none
    rcases headless.others pTimer linked none with same | first
    · exact notHead same
    · exact notFirst first
  have head : (takenOff pQueue pTimer enmState).links.head = pQueue.links.head := by
    show (pQueue.links.unlink pTimer).head = _
    simp only [Links.unlink, prev]
  refine ⟨⟨headless.sound.takeOff, headless.stray.unlink headless.sound.paired notHead, ?_⟩, head⟩
  intro a linkedA prevA
  rw [head]
  have other : a ≠ pTimer := by
    rintro rfl
    rw [takenOff_state, unlinked] at linkedA
    cases linkedA
  have same : (takenOff pQueue pTimer enmState).timer a = pQueue.timer a := setTimer_of_ne other
  refine headless.others a (same ▸ linkedA) ?_
  change (pQueue.links.unlink pTimer).prev a = none at prevA
  unfold Links.unlink at prevA
  cases next : pQueue.links.next pTimer <;> simp only [next, update_apply] at prevA <;> grind

/-- An inserted timer becomes the head where there is none, or is lost itself. -/
theorem Headless.insert (t : TmTimer) {u64Expire : Nat} (headless : Headless pQueue pHead)
    (unlinked : ¬ (pQueue.timer pTimer).enmState.isLinked) (linked : t.enmState.isLinked)
    (notHead : pTimer ≠ pHead) {pQueue' : TmTimerQueue cTimers}
    (result : pQueue' = tmTimerQueueLinkActive (pQueue.setTimer pTimer t) pTimer u64Expire) :
    Headless pQueue' pHead ∧ (pQueue'.links.head = some pTimer ∨
        pQueue'.links.head = pQueue.links.head ∧ pQueue.links.head ≠ none) ∨
      pQueue'.links.Stray pTimer := by
  have sound : Sound (tmTimerQueueLinkActive (pQueue.setTimer pTimer t) pTimer u64Expire) :=
    headless.sound.insert unlinked linked
  have stray : (tmTimerQueueLinkActive (pQueue.setTimer pTimer t) pTimer u64Expire).links.Stray
      pHead := headless.sound.insert_stray headless.stray notHead
  have linkedAs : LinkedAs pQueue.links _ pTimer :=
    linkActive_linkedAs (pQueue.setTimer pTimer t) u64Expire
  have timers : pQueue'.timer = (pQueue.setTimer pTimer t).timer := by
    rw [result, tmTimerQueueLinkActive_timer]
  rw [← result] at sound stray linkedAs
  obtain ⟨prev, next, notFirst⟩ := headless.sound.idle pTimer unlinked
  have old : ∀ a, a ≠ pTimer → (pQueue'.timer a).enmState.isLinked →
      pQueue.links.prev a = none → a = pHead ∨ pQueue.links.head = some a := by
    intro a other linkedA
    rw [timers, setTimer_of_ne other] at linkedA
    exact headless.others a linkedA
  rcases linkedAs with ⟨empty, links⟩ | ⟨cur, ⟨nonempty, reached⟩, links⟩ |
    ⟨cur, ⟨nonempty, -⟩, -, links⟩ | ⟨nonempty, links⟩
  · refine .inl ⟨⟨sound, stray, fun a linkedA prevA => ?_⟩, .inl (by rw [links]; rfl)⟩
    rw [links] at prevA ⊢
    by_cases this : a = pTimer
    · exact .inr (congrArg _ this.symm)
    · refine (old a this linkedA prevA).imp_right fun first => ?_
      rw [empty] at first
      cases first
  · cases before : pQueue.links.prev cur with
    | none =>
      have first : pQueue.links.head = some cur := by
        rcases reached with first | ⟨a, next⟩
        · exact first
        · rw [(headless.sound.paired a cur).mp next] at before
          cases before
      have form : pQueue'.links.head = some pTimer := by
        rw [links]
        simp only [Links.insertBefore, before]
      refine .inl ⟨⟨sound, stray, fun a linkedA prevA => ?_⟩, .inl form⟩
      rw [form]
      by_cases this : a = pTimer
      · exact .inr (congrArg _ this.symm)
      · rw [links] at prevA
        simp only [Links.insertBefore, before, update_apply] at prevA
        split at prevA
        · cases prevA
        · rename_i notCur
          refine (old a this linkedA prevA).imp_right fun firstA => ?_
          rw [first] at firstA
          exact absurd (some.inj firstA).symm notCur
    | some p =>
      have form : pQueue'.links.head = pQueue.links.head := by
        rw [links]
        simp only [Links.insertBefore, before]
      refine .inl ⟨⟨sound, stray, fun a linkedA prevA => ?_⟩, .inr ⟨form, nonempty⟩⟩
      rw [form]
      rw [links] at prevA
      simp only [Links.insertBefore, before, update_apply] at prevA
      split at prevA
      · cases prevA
      · split at prevA
        · cases prevA
        · rename_i this
          exact old a this linkedA prevA
  · refine .inl ⟨⟨sound, stray, fun a linkedA prevA => ?_⟩, .inr ⟨by rw [links]; rfl, nonempty⟩⟩
    rw [links] at prevA ⊢
    simp only [Links.insertLast, update_apply] at prevA
    split at prevA
    · cases prevA
    · rename_i this
      exact old a this linkedA prevA
  · refine .inr ?_
    rw [links]
    exact ⟨prev, notFirst⟩

/-- Scheduling another timer than the first of the lost list. -/
theorem Headless.scheduleOne (headless : Headless pQueue pHead)
    (waits : (pQueue.timer pTimer).enmState.isScheduled ∨ (pQueue.timer pTimer).enmState = .destroy)
    (notHead : pTimer ≠ pHead) (notFirst : pQueue.links.head ≠ some pTimer) :
    Headless (tmTimerQueueScheduleOne pQueue pTimer) pHead ∧
        ((tmTimerQueueScheduleOne pQueue pTimer).links.head = some pTimer ∧ Inserts pQueue pTimer ∨
          (tmTimerQueueScheduleOne pQueue pTimer).links.head = pQueue.links.head ∧
            (Inserts pQueue pTimer → pQueue.links.head ≠ none)) ∨
      (tmTimerQueueScheduleOne pQueue pTimer).links.Stray pTimer ∧ Inserts pQueue pTimer := by
  have stopped : ∀ {pQueue : TmTimerQueue cTimers}, Headless pQueue pHead →
      (pQueue.timer pTimer).enmState = .pendingStopSchedule →
      Headless (scheduleStop pQueue pTimer).1 pHead ∧
        (scheduleStop pQueue pTimer).1.links.head = pQueue.links.head := by
    intro pQueue headless state
    rw [scheduleStop_eq state]
    refine ⟨⟨headless.sound.set (by rw [state]; rfl), headless.stray, fun a linkedA prevA => ?_⟩,
      rfl⟩
    by_cases this : a = pTimer
    · rw [this, setTimer_self] at linkedA
      cases linkedA
    · rw [setTimer_of_ne this] at linkedA
      exact headless.others a linkedA prevA
  cases state : (pQueue.timer pTimer).enmState <;> rw [state] at waits
  case pendingSchedule =>
    rw [scheduleOne_pendingSchedule state, scheduleInsert_eq state]
    rcases headless.insert (withState pQueue pTimer .active) (by rw [state]; exact nofun) rfl
        notHead rfl with
      ⟨headless', first | ⟨same, some⟩⟩ | stray
    · exact .inl ⟨headless', .inl ⟨first, .inl state⟩⟩
    · exact .inl ⟨headless', .inr ⟨same, fun _ => some⟩⟩
    · exact .inr ⟨stray, .inl state⟩
  case pendingStopSchedule =>
    rw [scheduleOne_pendingStopSchedule state]
    obtain ⟨headless', head⟩ := stopped headless state
    exact .inl ⟨headless', .inr ⟨head, fun inserts => by simp [Inserts, state] at inserts⟩⟩
  case pendingReschedule =>
    obtain ⟨off, head⟩ : Headless (takenOff pQueue pTimer .pendingSchedule) pHead ∧ _ :=
      headless.takeOff (by rw [state]; rfl) rfl notHead notFirst
    rw [scheduleOne_pendingReschedule state, scheduleInsert_eq takenOff_state]
    rcases off.insert (withState (takenOff pQueue pTimer .pendingSchedule) pTimer .active)
        (by rw [takenOff_state]; exact nofun) rfl notHead rfl with
      ⟨headless', first | ⟨same, some⟩⟩ | stray
    · exact .inl ⟨headless', .inl ⟨first, .inr state⟩⟩
    · exact .inl ⟨headless', .inr ⟨same.trans head, fun _ => head ▸ some⟩⟩
    · exact .inr ⟨stray, .inr state⟩
  case pendingStop =>
    obtain ⟨off, head⟩ : Headless (takenOff pQueue pTimer .pendingStopSchedule) pHead ∧ _ :=
      headless.takeOff (by rw [state]; rfl) rfl notHead notFirst
    rw [scheduleOne_pendingStop state]
    obtain ⟨headless', head'⟩ := stopped off takenOff_state
    exact .inl ⟨headless', .inr ⟨head'.trans head, fun inserts => by
      simp [Inserts, state] at inserts⟩⟩
  case destroy =>
    rw [scheduleOne_destroy state]
    exact .inl ⟨headless, .inr ⟨rfl, fun inserts => by simp [Inserts, state] at inserts⟩⟩
  all_goals exact absurd waits (by decide)

/-- The head, if there is one, was inserted by the pass. -/
def NewHead (pQueue : TmTimerQueue cTimers) (pHead : Fin cTimers) (waiting : List (Fin cTimers)) :
    Prop :=
  ∀ f, pQueue.links.head = some f →
    (pQueue.timer f).enmState.isLinked ∧ f ∉ waiting ∧ f ≠ pHead

/-- The part of a batch in front of the first timer of the lost list. -/
theorem Headless.foldl {waiting rest : List (Fin cTimers)} (headless : Headless pQueue pHead)
    (new : NewHead pQueue pHead (waiting ++ rest))
    (waits : ∀ a ∈ waiting, (pQueue.timer a).enmState.isScheduled ∨
      (pQueue.timer a).enmState = .destroy)
    (once : (waiting ++ rest).Nodup) (absent : pHead ∉ waiting) :
    Headless (waiting.foldl tmTimerQueueScheduleOne pQueue) pHead ∧
        NewHead (waiting.foldl tmTimerQueueScheduleOne pQueue) pHead rest ∧
        ((∃ a ∈ waiting, Inserts pQueue a) ∨ pQueue.links.head ≠ none →
          (waiting.foldl tmTimerQueueScheduleOne pQueue).links.head ≠ none) ∨
      Doomed (waiting.foldl tmTimerQueueScheduleOne pQueue) rest := by
  induction waiting generalizing pQueue with
  | nil => exact .inl ⟨headless, new, fun some => some.resolve_left (by simp)⟩
  | cons x waiting ih =>
    rw [cons_append, nodup_cons] at once
    rw [mem_cons, not_or] at absent
    have waitsX := waits x (mem_cons_self ..)
    have notFirst : pQueue.links.head ≠ some x := fun first =>
      (new x first).2.1 (mem_cons_self ..)
    have others := (scheduleOne_states waitsX).2.2
    have stateX := (scheduleOne_states waitsX).2.1
    have notX : ∀ a ∈ waiting, a ≠ x := by
      rintro a member rfl
      exact once.1 (mem_append_left _ member)
    have armed : Inserts pQueue x →
        ((tmTimerQueueScheduleOne pQueue x).timer x).enmState.isLinked := by
      intro inserts
      rw [stateX]
      rcases inserts with state | state <;> rw [state] <;> rfl
    have waits' : ∀ a ∈ waiting,
        ((tmTimerQueueScheduleOne pQueue x).timer a).enmState.isScheduled ∨
          ((tmTimerQueueScheduleOne pQueue x).timer a).enmState = .destroy := by
      intro a member
      rw [others a (notX a member)]
      exact waits a (mem_cons_of_mem x member)
    rcases headless.scheduleOne waitsX (Ne.symm absent.1) notFirst with
      ⟨headless', heads⟩ | ⟨stray, inserts⟩
    · have new' : NewHead (tmTimerQueueScheduleOne pQueue x) pHead (waiting ++ rest) := by
        intro f first
        rcases heads with ⟨head, inserts⟩ | ⟨head, -⟩
        · rw [head] at first
          cases first
          exact ⟨armed inserts, once.1, Ne.symm absent.1⟩
        · rw [head] at first
          obtain ⟨linked, notIn, other⟩ := new f first
          rw [cons_append, mem_cons, not_or] at notIn
          rw [others f notIn.1]
          exact ⟨linked, notIn.2, other⟩
      refine (ih headless' new' waits' once.2 absent.2).imp_left fun ⟨last, newLast, kept⟩ =>
        ⟨last, newLast, fun some => kept ?_⟩
      have nonempty : Inserts pQueue x ∨ pQueue.links.head ≠ none →
          (tmTimerQueueScheduleOne pQueue x).links.head ≠ none := by
        intro some
        rcases heads with ⟨head, -⟩ | ⟨head, empty⟩
        · rw [head]
          exact nofun
        · rw [head]
          exact some.elim empty id
      rcases some with ⟨a, member, inserts⟩ | some
      · rcases mem_cons.mp member with rfl | member
        · exact .inr (nonempty (.inl inserts))
        · refine .inl ⟨a, member, ?_⟩
          rw [Inserts, others a (notX a member)]
          exact inserts
      · exact .inr (nonempty (.inr some))
    · have doomed : Doomed (tmTimerQueueScheduleOne pQueue x) (waiting ++ rest) :=
        ⟨(headless.sound.scheduleOne waitsX).1, x, stray, armed inserts, once.1⟩
      exact .inr (doomed.foldl waits' (nodup_append.mp once.2).1)

/-- Then the first timer of the lost list takes the place of the head, which is lost. -/
theorem Headless.doomed {after : List (Fin cTimers)} (headless : Headless pQueue pHead)
    (new : NewHead pQueue pHead (pHead :: after)) (some : pQueue.links.head ≠ none)
    (linked : (pQueue.timer pHead).enmState.isLinked)
    (scheduled : (pQueue.timer pHead).enmState.isScheduled) :
    Doomed (tmTimerQueueScheduleOne pQueue pHead) after := by
  obtain ⟨f, first⟩ := ne_none_iff_exists'.mp some
  obtain ⟨linkedF, notIn, other⟩ := new f first
  have stray : ∀ enmState, (takenOff pQueue pHead enmState).links.Stray f := fun _ =>
    headless.sound.paired.stray_unlink headless.stray.1 (headless.sound.first f first) other.symm
  refine ⟨(headless.sound.scheduleOne (.inl scheduled)).1, f, ?_, ?_,
    fun member => notIn (mem_cons_of_mem _ member)⟩
  · cases state : (pQueue.timer pHead).enmState <;> rw [state] at linked scheduled
    case pendingReschedule =>
      rw [scheduleOne_pendingReschedule state, scheduleInsert_eq takenOff_state]
      exact headless.sound.takeOff.insert_stray (stray _) other.symm
    case pendingStop =>
      rw [scheduleOne_pendingStop state, scheduleStop_eq takenOff_state]
      exact stray _
    all_goals first | exact absurd linked (by decide) | exact absurd scheduled (by decide)
  · rw [(scheduleOne_states (.inl scheduled)).2.2 f other]
    exact linkedF

end Links

section Exact

variable {tm : TmTimers cTimers cOthers} {pTimer : Fin cTimers} {l : List (Fin cTimers)}
  {created : List (AnyTimer cTimers cOthers)}

/-- A lost list stays lost. -/
theorem destroyInQueue_doomed (ok : TimersOk tm l created)
    (state : (tm.queue.timer pTimer).enmState = .pendingStopSchedule)
    (lost : ¬ (l = [] ∨ HeadFirst tm.queue l)) :
    Doomed (destroyInQueue tm.queue pTimer true true) [] := by
  rw [not_or] at lost
  obtain ⟨pHead, ys, rfl⟩ := exists_cons_of_ne_nil lost.1
  have absent : pTimer ∉ pHead :: ys := by
    rw [ok.active.linked, state]
    exact nofun
  have before : ActiveOk (tm.queue.setState pTimer .destroy) (pHead :: ys) :=
    ok.active.set (by rw [state]; rfl) nofun
  have self : ((tm.queue.setState pTimer .destroy).timer pTimer).enmState = .destroy :=
    congrArg TmTimer.enmState setTimer_self
  have others : ∀ a, a ≠ pTimer →
      (tm.queue.setState pTimer .destroy).timer a = tm.queue.timer a :=
    fun a other => setTimer_of_ne other
  have waits : ∀ a ∈ (tm.queue.setState pTimer .destroy).offSchedule, _ := ok.waits rfl self others
  have notSelf : pHead ≠ pTimer := by
    rintro rfl
    exact absent (mem_cons_self ..)
  have queue : destroyInQueue tm.queue pTimer true true = tm.queue.offSchedule.foldl
      tmTimerQueueScheduleOne
        (beheaded { tm.queue.setState pTimer .destroy with offSchedule := [] }) := by
    have unlinked := unlink_outside before.list absent
    show tmTimerQueueSchedule (tmTimerQueueUnlinkActive (tm.queue.setState pTimer .destroy)
      pTimer) = _
    rw [unlinked]
    rfl
  rw [queue]
  have list : Represents (tm.queue.setState pTimer .destroy).links ([] ++ pHead :: ys) :=
    before.list
  have headless : Headless
      (beheaded { tm.queue.setState pTimer .destroy with offSchedule := [] }) pHead := by
    refine ⟨⟨before.list.paired, nofun, fun a idle => ?_⟩, ⟨list.around.1, nofun⟩,
      fun a linked prev => ?_⟩
    · obtain ⟨next, prev⟩ := before.list.outside a fun member => idle ((before.linked a).mp member)
      exact ⟨prev, next, nofun⟩
    · obtain ⟨xs, zs, split⟩ := append_of_mem ((before.linked a).mpr linked)
      rw [nil_append, split] at list
      have empty := list.around.1.symm.trans prev
      rw [getLast?_eq_none_iff] at empty
      rw [empty] at split
      exact .inl (cons.inj split).1.symm
  have linkedHead : ((tm.queue.setState pTimer .destroy).timer pHead).enmState.isLinked :=
    (before.linked pHead).mp (mem_cons_self ..)
  by_cases pending : pHead ∈ tm.queue.offSchedule
  · obtain ⟨first, rest, batch⟩ := append_of_mem pending
    have once := ok.once
    have inBatch : ∀ a ∈ first, a ∈ tm.queue.offSchedule :=
      fun a member => batch ▸ mem_append_left _ member
    rw [batch] at once ⊢
    have apart := nodup_middle.mp once
    rw [nodup_cons, mem_append, not_or] at apart
    have scheduled : ((tm.queue.setState pTimer .destroy).timer pHead).enmState.isScheduled := by
      rw [others pHead notSelf, ← ok.scheduled]
      exact pending
    have fate : _ ∨ Doomed (first.foldl tmTimerQueueScheduleOne _) (pHead :: rest) :=
      headless.foldl nofun (fun a member => waits a (inBatch a member)) once apart.1.1
    have stays : ∀ a, a ∉ first → (first.foldl tmTimerQueueScheduleOne
        (beheaded { tm.queue.setState pTimer .destroy with offSchedule := [] })).timer a =
        (tm.queue.setState pTimer .destroy).timer a :=
      (batch_states (beheaded { tm.queue.setState pTimer .destroy with offSchedule := [] })
        (fun a member => waits a (inBatch a member)) (nodup_append.mp once).1).2.2
    have onceRest := (nodup_append.mp once).2.1
    have waitsRest : ∀ a ∈ pHead :: rest, ((first.foldl tmTimerQueueScheduleOne
        (beheaded { tm.queue.setState pTimer .destroy with offSchedule := [] })).timer
          a).enmState.isScheduled ∨ ((first.foldl tmTimerQueueScheduleOne
        (beheaded { tm.queue.setState pTimer .destroy with offSchedule := [] })).timer
          a).enmState = .destroy := by
      intro a member
      rw [stays a fun earlier => (nodup_append.mp once).2.2 a earlier a member rfl]
      exact waits a (batch ▸ mem_append_right _ member)
    rw [foldl_append]
    rcases fate with ⟨last, newLast, kept⟩ | doomed
    · -- a timer was inserted before, for the first would have come first otherwise
      obtain ⟨z, member, inserts⟩ : ∃ z ∈ first, Inserts tm.queue z := by
        by_contra none
        exact lost.2 ⟨pHead, first, rest, rfl, batch, fun a member inserts =>
          none ⟨a, member, inserts⟩⟩
      have notTimer : z ≠ pTimer := by
        rintro rfl
        rw [Inserts, state] at inserts
        exact absurd inserts (by decide)
      have insertsZ : Inserts (tm.queue.setState pTimer .destroy) z := by
        rw [Inserts, others z notTimer]
        exact inserts
      rw [foldl_cons]
      have scheduledNow := scheduled
      rw [← stays pHead apart.1.1] at linkedHead scheduledNow
      have doomed := last.doomed newLast (kept (.inl ⟨z, member, insertsZ⟩)) linkedHead scheduledNow
      rw [← append_nil rest] at doomed
      refine doomed.foldl (fun a member => ?_) (nodup_cons.mp onceRest).2
      rw [(scheduleOne_states (.inl scheduledNow)).2.2 a fun same =>
        (nodup_cons.mp onceRest).1 (same ▸ member)]
      exact waitsRest a (mem_cons_of_mem _ member)
    · rw [← append_nil (pHead :: rest)] at doomed
      exact doomed.foldl waitsRest onceRest
  · have doomed : Doomed (beheaded { tm.queue.setState pTimer .destroy with offSchedule := [] })
        (tm.queue.offSchedule ++ []) := by
      refine ⟨headless.sound, pHead, headless.stray, linkedHead, ?_⟩
      rwa [append_nil]
    exact doomed.foldl waits ok.once

/-- The timer is destroyed, and nothing else, if and only if it is not waiting to be stopped off
the list, or the list is not lost by that. -/
theorem tmR3TimerDestroy_ok_iff (ok : TimersOk tm l created)
    (destroyable : (tm.queue.timer pTimer).enmState.isDestroyable) :
    ((tmR3TimerDestroy tm pTimer).2 = .vinfSuccess ∧
      Destroyed tm (tmR3TimerDestroy tm pTimer).1 pTimer l created) ↔
    ((tm.queue.timer pTimer).enmState = .pendingStopSchedule →
      l = [] ∨ HeadFirst tm.queue l) := by
  refine ⟨fun ⟨_, destroyed⟩ state => ?_, tmR3TimerDestroy_ok ok destroyable⟩
  by_contra lost
  obtain ⟨-, f, stray, linked, -⟩ := destroyInQueue_doomed ok state lost
  obtain ⟨l', ok', -⟩ := destroyed.lists
  have notSelf : f ≠ pTimer := by
    rintro rfl
    rw [(destroyInQueue_states f true true ok).2.1] at linked
    cases linked
  have result : (tmR3TimerDestroy tm pTimer).1 = destroyTimer tm pTimer true true := by
    rw [tmR3TimerDestroy, state]
  rw [result] at ok'
  have member : f ∈ l' := by
    rw [ok'.active.linked]
    show (((destroyInQueue tm.queue pTimer true true).setState pTimer
      .free).timer f).enmState.isLinked
    rw [TmTimerQueue.setState, setTimer_of_ne notSelf]
    exact linked
  exact ok'.active.list.not_stray member stray

end Exact

/-- One timer is armed; the other was armed from another thread and stopped again before the
pass. -/
def stoppingTm (armed stopped : Fin 2) : TmTimers 2 0 where
  queue := ([TmCall.set armed 10 false, .schedule, .set stopped 20 false, .stop stopped].foldl
    TmCall.apply (stoppedTm 2)).queue
  pCreated := (Links.empty.insertFirst (.own stopped)).insertBefore (.own armed) (.own stopped)
  pFree := []

theorem stoppingTm_ok : TimersOk (stoppingTm 0 1) [0] [.own 0, .own 1] := by
  have run : Run (Guarded Unmisled CallStep) (stoppedTm 2)
      [.set 0 10 false, .schedule, .set 1 20 false, .stop 1] _ :=
    .next ⟨by decide, rfl⟩ (.next ⟨by decide, rfl⟩ (.next ⟨by decide, rfl⟩
      (.next ⟨by decide, rfl⟩ (.done _))))
  obtain ⟨l, ok⟩ := run.invariant (fun tm => ∃ l, QueueOk tm.queue l tm.queue.offSchedule) (by
      rintro s call t ⟨l, ok⟩ ⟨unmisled, rfl⟩
      exact (apply_ok ok unmisled).1)
    ⟨[], (stoppedTm_idle 2).ok⟩
  have ok : QueueOk (stoppingTm 0 1).queue l (stoppingTm 0 1).queue.offSchedule := ok
  have active : (stoppingTm 0 1).queue.active = [0] := by decide
  rw [active_eq ok.list] at active
  subst active
  have list : Represents (Links.empty.insertFirst (AnyTimer.own 1 : AnyTimer 2 0))
      ([] ++ .own 1 :: []) := represents_empty.insertFirst _
  refine ⟨⟨ok.list, ok.linked, ok.head⟩, ok.scheduled, ok.once, by decide,
    list.insertBefore (by simp), nodup_nil, fun _ _ => not_mem_nil, by decide, by decide⟩

theorem tmR3TimerDestroy_ok_iff_armed :
    ((tmR3TimerDestroy (stoppingTm 0 1) 0).2 = .vinfSuccess ∧
      Destroyed (stoppingTm 0 1) (tmR3TimerDestroy (stoppingTm 0 1) 0).1 0 [0] [.own 0, .own 1]) ↔
    (((stoppingTm 0 1).queue.timer 0).enmState = .pendingStopSchedule →
      ([0] : List (Fin 2)) = [] ∨ HeadFirst (stoppingTm 0 1).queue [0]) :=
  tmR3TimerDestroy_ok_iff stoppingTm_ok (by decide)

/-- Destroying the stopped timer succeeds and loses the armed one. -/
theorem tmR3TimerDestroy_loses : TimersOk (stoppingTm 0 1) [0] [.own 0, .own 1] ∧
    (tmR3TimerDestroy (stoppingTm 0 1) 1).2 = .vinfSuccess ∧
    (tmR3TimerDestroy (stoppingTm 0 1) 1).1.queue.active = [] ∧
    ((tmR3TimerDestroy (stoppingTm 0 1) 1).1.queue.timer 0).enmState = .active ∧
    ¬ Destroyed (stoppingTm 0 1) (tmR3TimerDestroy (stoppingTm 0 1) 1).1 1 [0] [.own 0, .own 1] := by
  have active : (tmR3TimerDestroy (stoppingTm 0 1) 1).1.queue.active = [] := by decide
  have armed : ((tmR3TimerDestroy (stoppingTm 0 1) 1).1.queue.timer 0).enmState = .active := by decide
  refine ⟨stoppingTm_ok, by decide, active, armed, fun destroyed => ?_⟩
  obtain ⟨l', ok, -⟩ := destroyed.lists
  rw [active_eq ok.active.list] at active
  have member := (ok.active.linked 0).mpr (by rw [armed]; rfl)
  rw [active] at member
  cases member

end VBox.Vmm.Tm
