import Mathlib.Algebra.GroupWithZero.Nat
import Mathlib.Data.Fintype.Card
import Mathlib.Data.List.TakeWhile
import VBox.Lib.LinkedList

/-!
The timer queue of TM.

A queue has its active list, linked in both directions through `offNext` and
`offPrev`, and its scheduling list. `tmTimerQueueLinkActive` looks for the place of a
timer by the expire times stored in the timers it passes;
`tmTimerQueueLinkActive_represents` says where that is.
-/

namespace VBox.Vmm.Tm

open VBox.Lib VBox.Lib.Links List

inductive TmTimerState where
  | stopped
  | active
  | expiredGetUnlink
  | expiredDeliver
  | pendingStop
  | pendingStopSchedule
  | pendingScheduleSetExpire
  | pendingSchedule
  | pendingRescheduleSetExpire
  | pendingReschedule
  | destroy
  | free
  deriving DecidableEq, Repr

namespace TmTimerState

/-- `TMTIMERSTATE_IS_PENDING_SCHEDULING` -/
def isPendingScheduling : TmTimerState → Bool
  | pendingScheduleSetExpire | pendingSchedule | pendingRescheduleSetExpire
  | pendingReschedule => true
  | _ => false

/-- On the active list while no call is under way. -/
def isLinked : TmTimerState → Bool
  | active | pendingStop | pendingReschedule => true
  | _ => false

/-- On the scheduling list while no call is under way. -/
def isScheduled : TmTimerState → Bool
  | pendingStop | pendingStopSchedule | pendingSchedule | pendingReschedule => true
  | _ => false

end TmTimerState

structure TmTimer where
  enmState : TmTimerState
  u64Expire : Nat
  /-- `pCritSect` is set. -/
  pCritSect : Bool
  uHzHint : Nat

def int64Max : Nat := 2 ^ 63 - 1

variable {cTimers : Nat}

/-- `offActive`, `offNext` and `offPrev` are `links`; the scheduling list is a list, its
head first. -/
structure TmTimerQueue (cTimers : Nat) where
  u64Expire : Nat
  links : Links (Fin cTimers)
  offSchedule : List (Fin cTimers)
  timer : Fin cTimers → TmTimer

namespace TmTimerQueue

def setTimer (pQueue : TmTimerQueue cTimers) (pTimer : Fin cTimers) (t : TmTimer) :
    TmTimerQueue cTimers :=
  { pQueue with timer := Function.update pQueue.timer pTimer t }

/-- `TM_SET_STATE` -/
def setState (pQueue : TmTimerQueue cTimers) (pTimer : Fin cTimers) (enmState : TmTimerState) :
    TmTimerQueue cTimers :=
  pQueue.setTimer pTimer { pQueue.timer pTimer with enmState := enmState }

def setExpire (pQueue : TmTimerQueue cTimers) (pTimer : Fin cTimers) (u64Expire : Nat) :
    TmTimerQueue cTimers :=
  pQueue.setTimer pTimer { pQueue.timer pTimer with u64Expire := u64Expire }

/-- The active list, as its forward links give it. -/
def activeFrom (pQueue : TmTimerQueue cTimers) : Nat → Option (Fin cTimers) → List (Fin cTimers)
  | fuel + 1, some pCur => pCur :: pQueue.activeFrom fuel (pQueue.links.next pCur)
  | _, _ => []

def active (pQueue : TmTimerQueue cTimers) : List (Fin cTimers) :=
  pQueue.activeFrom cTimers pQueue.links.head

end TmTimerQueue

/-- The loop of `tmTimerQueueLinkActive`; a well linked list needs no more than `cTimers`
rounds. -/
def tmTimerQueueLinkFrom (pQueue : TmTimerQueue cTimers) (pTimer : Fin cTimers)
    (u64Expire : Nat) : Nat → Fin cTimers → TmTimerQueue cTimers
  | 0, _ => pQueue
  | fuel + 1, pCur =>
      if u64Expire < (pQueue.timer pCur).u64Expire then
        { pQueue with
          links := pQueue.links.insertBefore pTimer pCur
          u64Expire := match pQueue.links.prev pCur with
            | some _ => pQueue.u64Expire
            | none => u64Expire }
      else
        match pQueue.links.next pCur with
        | none => { pQueue with links := pQueue.links.insertLast pTimer pCur }
        | some pNext => tmTimerQueueLinkFrom pQueue pTimer u64Expire fuel pNext

def tmTimerQueueLinkActive (pQueue : TmTimerQueue cTimers) (pTimer : Fin cTimers)
    (u64Expire : Nat) : TmTimerQueue cTimers :=
  match pQueue.links.head with
  | some pCur => tmTimerQueueLinkFrom pQueue pTimer u64Expire cTimers pCur
  | none => { pQueue with links := pQueue.links.insertFirst pTimer, u64Expire := u64Expire }

def tmTimerQueueUnlinkActive (pQueue : TmTimerQueue cTimers) (pTimer : Fin cTimers) :
    TmTimerQueue cTimers :=
  { pQueue with
    links := pQueue.links.unlink pTimer
    u64Expire := match pQueue.links.prev pTimer with
      | some _ => pQueue.u64Expire
      | none =>
          match pQueue.links.next pTimer with
          | some pNext => (pQueue.timer pNext).u64Expire
          | none => int64Max }

section Lists

variable {pQueue : TmTimerQueue cTimers} {pTimer : Fin cTimers} {l xs ys : List (Fin cTimers)}

theorem length_le_cTimers (list : Represents pQueue.links l) : l.length ≤ cTimers := by
  have bound := list.nodup.length_le_card
  rwa [Fintype.card_fin] at bound

variable {fuel : Nat}

theorem activeFrom_segment {p : Option (Fin cTimers)} (segment : Segment pQueue.links p l none)
    (enough : l.length ≤ fuel) : pQueue.activeFrom fuel l.head? = l := by
  induction l generalizing p fuel with
  | nil => cases fuel <;> rfl
  | cons a l ih =>
    cases fuel with
    | zero => cases enough
    | succ fuel =>
      obtain ⟨-, next, rest⟩ := segment
      rw [Option.or_none] at next
      have tail := ih rest (Nat.le_of_succ_le_succ enough)
      show a :: pQueue.activeFrom fuel (pQueue.links.next a) = a :: l
      rw [next, tail]

theorem active_eq (list : Represents pQueue.links l) : pQueue.active = l := by
  rw [TmTimerQueue.active, list.head]
  exact activeFrom_segment list.segment (length_le_cTimers list)

/-- Everything before the place of a timer expires no later. -/
def staysBefore (pQueue : TmTimerQueue cTimers) (u64Expire : Nat) (a : Fin cTimers) : Bool :=
  (pQueue.timer a).u64Expire ≤ u64Expire

/-- The list with the timer where `tmTimerQueueLinkActive` puts it. -/
def placed (pQueue : TmTimerQueue cTimers) (pTimer : Fin cTimers) (u64Expire : Nat)
    (l : List (Fin cTimers)) : List (Fin cTimers) :=
  l.takeWhile (staysBefore pQueue u64Expire) ++
    pTimer :: l.dropWhile (staysBefore pQueue u64Expire)

variable {u64Expire : Nat}

theorem mem_placed {a : Fin cTimers} :
    a ∈ placed pQueue pTimer u64Expire l ↔ a = pTimer ∨ a ∈ l := by
  rw [placed, mem_append, mem_cons, or_left_comm, ← mem_append, takeWhile_append_dropWhile]

/-- The part of the state linking leaves alone. -/
theorem tmTimerQueueLinkFrom_frame {pCur : Fin cTimers} :
    (tmTimerQueueLinkFrom pQueue pTimer u64Expire fuel pCur).timer = pQueue.timer ∧
      (tmTimerQueueLinkFrom pQueue pTimer u64Expire fuel pCur).offSchedule =
        pQueue.offSchedule := by
  induction fuel generalizing pCur with
  | zero => exact ⟨rfl, rfl⟩
  | succ fuel ih =>
    rw [tmTimerQueueLinkFrom]
    split
    · exact ⟨rfl, rfl⟩
    · split
      · exact ⟨rfl, rfl⟩
      · exact ih

@[simp] theorem tmTimerQueueLinkActive_timer :
    (tmTimerQueueLinkActive pQueue pTimer u64Expire).timer = pQueue.timer := by
  rw [tmTimerQueueLinkActive]
  split
  · exact tmTimerQueueLinkFrom_frame.1
  · rfl

@[simp] theorem tmTimerQueueLinkActive_offSchedule :
    (tmTimerQueueLinkActive pQueue pTimer u64Expire).offSchedule = pQueue.offSchedule := by
  rw [tmTimerQueueLinkActive]
  split
  · exact tmTimerQueueLinkFrom_frame.2
  · rfl

theorem tmTimerQueueLinkFrom_represents {pCur : Fin cTimers}
    (list : Represents pQueue.links (xs ++ pCur :: ys)) (fresh : pTimer ∉ xs ++ pCur :: ys)
    (before : ∀ a ∈ xs, staysBefore pQueue u64Expire a) (enough : ys.length < fuel) :
    Represents (tmTimerQueueLinkFrom pQueue pTimer u64Expire fuel pCur).links
        (placed pQueue pTimer u64Expire (xs ++ pCur :: ys)) ∧
      (tmTimerQueueLinkFrom pQueue pTimer u64Expire fuel pCur).u64Expire =
        if (placed pQueue pTimer u64Expire (xs ++ pCur :: ys)).head? = some pTimer then u64Expire
        else pQueue.u64Expire := by
  induction fuel generalizing xs ys pCur with
  | zero => exact absurd enough (Nat.not_lt_zero _)
  | succ fuel ih =>
    obtain ⟨prevCur, nextCur⟩ := list.around
    rw [tmTimerQueueLinkFrom]
    by_cases later : u64Expire < (pQueue.timer pCur).u64Expire
    · -- the place is before `pCur`
      have stops : staysBefore pQueue u64Expire pCur = false := by
        simpa [staysBefore] using later
      have place : placed pQueue pTimer u64Expire (xs ++ pCur :: ys) =
          xs ++ pTimer :: pCur :: ys := by
        rw [placed, takeWhile_append_of_pos before, dropWhile_append_of_pos before,
          takeWhile_cons_of_neg (by simp [stops]), dropWhile_cons_of_neg
          (by simp [stops]), append_nil]
      rw [if_pos later, place]
      refine ⟨list.insertBefore fresh, ?_⟩
      dsimp only
      rw [prevCur]
      cases xs with
      | nil => simp
      | cons x xs =>
        have notFirst : x ≠ pTimer := fun same => fresh (by simp [same])
        rw [getLast?_cons, cons_append, head?_cons, if_neg]
        rintro ⟨⟩
        exact notFirst rfl
    · have stays : staysBefore pQueue u64Expire pCur = true := by
        simpa [staysBefore] using later
      rw [if_neg later, nextCur]
      cases ys with
      | nil =>
        -- no one expires later: the place is the end
        have all : ∀ a ∈ xs ++ [pCur], staysBefore pQueue u64Expire a := by
          intro a member
          rcases mem_append.mp member with member | member
          · exact before a member
          · rw [mem_singleton.mp member]
            exact stays
        have place : placed pQueue pTimer u64Expire (xs ++ [pCur]) = xs ++ [pCur, pTimer] := by
          rw [placed, takeWhile_eq_self_iff.mpr all, dropWhile_eq_nil_iff.mpr all, append_assoc]
          rfl
        rw [place]
        refine ⟨list.insertLast fresh, ?_⟩
        have notFirst : (xs ++ [pCur, pTimer]).head? ≠ some pTimer := by
          cases xs with
          | nil =>
            rintro ⟨⟩
            exact fresh (mem_singleton_self _)
          | cons x xs =>
            rintro ⟨⟩
            exact fresh (mem_cons_self ..)
        rw [if_neg notFirst]
        rfl
      | cons pNext ys =>
        have shift : xs ++ pCur :: pNext :: ys = (xs ++ [pCur]) ++ pNext :: ys := by simp
        rw [shift] at list fresh ⊢
        refine ih list fresh ?_ (Nat.lt_of_succ_lt_succ enough)
        intro a member
        rcases mem_append.mp member with member | member
        · exact before a member
        · rw [mem_singleton.mp member]
          exact stays

/-- The timer goes before the first one that expires later, or to the end. -/
theorem tmTimerQueueLinkActive_represents (u64Expire : Nat) (list : Represents pQueue.links l)
    (fresh : pTimer ∉ l) : Represents (tmTimerQueueLinkActive pQueue pTimer u64Expire).links
        (placed pQueue pTimer u64Expire l) ∧
      (tmTimerQueueLinkActive pQueue pTimer u64Expire).u64Expire =
        if (placed pQueue pTimer u64Expire l).head? = some pTimer then u64Expire
        else pQueue.u64Expire := by
  rw [tmTimerQueueLinkActive, list.head]
  cases l with
  | nil => exact ⟨list.insertFirst pTimer, by simp [placed]⟩
  | cons pCur ys =>
    have bound := length_le_cTimers list
    have whole : Represents pQueue.links ([] ++ pCur :: ys) := list
    exact tmTimerQueueLinkFrom_represents whole fresh (fun _ member => by cases member) bound

/-- Unlinking takes the timer out; a new head passes its expire time on. -/
theorem tmTimerQueueUnlinkActive_represents (list : Represents pQueue.links (xs ++ pTimer :: ys)) :
    Represents (tmTimerQueueUnlinkActive pQueue pTimer).links (xs ++ ys) ∧
      (tmTimerQueueUnlinkActive pQueue pTimer).u64Expire =
        match xs, ys with
        | _ :: _, _ => pQueue.u64Expire
        | [], pNext :: _ => (pQueue.timer pNext).u64Expire
        | [], [] => int64Max := by
  refine ⟨list.unlink, ?_⟩
  obtain ⟨prev, next⟩ := list.around
  rw [tmTimerQueueUnlinkActive]
  dsimp only
  rw [prev, next]
  cases xs with
  | nil =>
    cases ys with
    | nil => rfl
    | cons y ys => rfl
  | cons x xs => rw [getLast?_cons]

end Lists

end VBox.Vmm.Tm
