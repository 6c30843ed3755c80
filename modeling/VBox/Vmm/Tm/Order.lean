import VBox.Vmm.Tm.Schedule

/-!
The order of the active list.

`QueueOk` is what holds of a queue while no call is under way: which timers are on
which list, and that the armed ones stand in the order of their expire times. A timer
that has been posted but not moved yet keeps its place with an expire time that no
longer says anything about it; `Clear` says that no such timer misleads an insertion.
-/

namespace VBox.Vmm.Tm

open VBox.Lib VBox.Lib.Links List

variable {cTimers : Nat}

def TmTimerQueue.Armed (pQueue : TmTimerQueue cTimers) (a : Fin cTimers) : Prop :=
  (pQueue.timer a).enmState = .active

instance (pQueue : TmTimerQueue cTimers) (a : Fin cTimers) : Decidable (pQueue.Armed a) :=
  inferInstanceAs (Decidable (_ = _))

/-- Two timers of the active list do not stand the wrong way round. -/
def InOrder (pQueue : TmTimerQueue cTimers) (a c : Fin cTimers) : Prop :=
  pQueue.Armed a → pQueue.Armed c → (pQueue.timer a).u64Expire ≤ (pQueue.timer c).u64Expire

/-- `pQueue->u64Expire` is that of the head, or `INT64_MAX`. -/
def HeadExpire (pQueue : TmTimerQueue cTimers) (l : List (Fin cTimers)) : Prop :=
  match l with
  | [] => pQueue.u64Expire = int64Max
  | a :: _ => pQueue.Armed a → pQueue.u64Expire = (pQueue.timer a).u64Expire

/-- The active list is `l`, and the timers in `waiting` wait for a pass. -/
structure QueueOk (pQueue : TmTimerQueue cTimers) (l waiting : List (Fin cTimers)) : Prop where
  list : Represents pQueue.links l
  linked : ∀ a, a ∈ l ↔ (pQueue.timer a).enmState.isLinked
  scheduled : ∀ a, a ∈ waiting ↔ (pQueue.timer a).enmState.isScheduled
  once : waiting.Nodup
  sorted : l.Pairwise (InOrder pQueue)
  head : HeadExpire pQueue l

/-- No timer that is posted but still linked stands before an armed one and keeps a timer
that expires at `u64Expire` from its place behind that one. -/
def Clear (pQueue : TmTimerQueue cTimers) (l : List (Fin cTimers)) (u64Expire : Nat) : Prop :=
  ∀ a c, [a, c].Sublist l → ¬ pQueue.Armed a → pQueue.Armed c →
    (pQueue.timer c).u64Expire < u64Expire → (pQueue.timer a).u64Expire ≤ u64Expire

instance (pQueue : TmTimerQueue cTimers) (l : List (Fin cTimers)) (u64Expire : Nat) :
    Decidable (Clear pQueue l u64Expire) :=
  inferInstanceAs (Decidable (∀ _ _, _))

section Keeps

variable {pQueue pQueue' : TmTimerQueue cTimers} {pTimer : Fin cTimers}
  {l xs ys waiting waiting' : List (Fin cTimers)} {u64Expire : Nat}

theorem headExpire_congr (sameExpire : pQueue'.u64Expire = pQueue.u64Expire)
    (sameTimer : ∀ a, (pQueue'.timer a).enmState = (pQueue.timer a).enmState ∧
      (pQueue'.timer a).u64Expire = (pQueue.timer a).u64Expire)
    (head : HeadExpire pQueue l) : HeadExpire pQueue' l := by
  cases l with
  | nil => exact sameExpire.trans head
  | cons a l =>
    intro armed
    rw [sameExpire, (sameTimer a).2]
    rw [TmTimerQueue.Armed, (sameTimer a).1] at armed
    exact head armed

/-- The invariant looks only at the state and the expire time of a timer. -/
theorem QueueOk.congr (ok : QueueOk pQueue l waiting) (sameLinks : pQueue'.links = pQueue.links)
    (sameExpire : pQueue'.u64Expire = pQueue.u64Expire)
    (sameTimer : ∀ a, (pQueue'.timer a).enmState = (pQueue.timer a).enmState ∧
      (pQueue'.timer a).u64Expire = (pQueue.timer a).u64Expire) : QueueOk pQueue' l waiting where
  list := sameLinks ▸ ok.list
  linked := fun a => by rw [(sameTimer a).1]; exact ok.linked a
  scheduled := fun a => by rw [(sameTimer a).1]; exact ok.scheduled a
  once := ok.once
  sorted := by
    refine ok.sorted.imp fun {a c} ordered armed armed' => ?_
    rw [TmTimerQueue.Armed, (sameTimer _).1] at armed armed'
    rw [(sameTimer a).2, (sameTimer c).2]
    exact ordered armed armed'
  head := headExpire_congr sameExpire sameTimer ok.head

/-- A timer that is put into a state other than `ACTIVE` where it stands takes nothing
from the order. -/
theorem QueueOk.post (ok : QueueOk pQueue l waiting) {t : TmTimer}
    (linked : t.enmState.isLinked = (pQueue.timer pTimer).enmState.isLinked)
    (notActive : t.enmState ≠ .active) (scheduled : ∀ a, a ∈ waiting' ↔
      if a = pTimer then t.enmState.isScheduled = true else a ∈ waiting)
    (once : waiting'.Nodup) : QueueOk (pQueue.setTimer pTimer t) l waiting' := by
  have armedOld : ∀ a, (pQueue.setTimer pTimer t).Armed a → a ≠ pTimer ∧ pQueue.Armed a := by
    intro a armed
    have other : a ≠ pTimer := by
      rintro rfl
      rw [TmTimerQueue.Armed, setTimer_self] at armed
      exact notActive armed
    rw [TmTimerQueue.Armed, setTimer_of_ne other] at armed
    exact ⟨other, armed⟩
  constructor
  · exact ok.list
  · intro a
    by_cases same : a = pTimer
    · rw [same, setTimer_self, linked]
      exact ok.linked pTimer
    · rw [setTimer_of_ne same]
      exact ok.linked a
  · intro a
    rw [scheduled a]
    by_cases same : a = pTimer
    · rw [if_pos same, same, setTimer_self]
    · rw [if_neg same, setTimer_of_ne same]
      exact ok.scheduled a
  · exact once
  · refine ok.sorted.imp fun {a c} ordered armed armed' => ?_
    obtain ⟨other, armed⟩ := armedOld a armed
    obtain ⟨other', armed'⟩ := armedOld c armed'
    rw [setTimer_of_ne other, setTimer_of_ne other']
    exact ordered armed armed'
  · have head := ok.head
    cases l with
    | nil => exact head
    | cons a l =>
      intro armed
      obtain ⟨other, armed⟩ := armedOld a armed
      rw [setTimer_of_ne other]
      exact head armed

theorem placed_congr (same : ∀ a ∈ l, staysBefore pQueue' u64Expire a =
    staysBefore pQueue u64Expire a) :
    placed pQueue' pTimer u64Expire l = placed pQueue pTimer u64Expire l := by
  have parts : l.takeWhile (staysBefore pQueue' u64Expire) =
        l.takeWhile (staysBefore pQueue u64Expire) ∧
      l.dropWhile (staysBefore pQueue' u64Expire) =
        l.dropWhile (staysBefore pQueue u64Expire) := by
    induction l with
    | nil => exact ⟨rfl, rfl⟩
    | cons a l ih =>
      obtain ⟨front, back⟩ := ih fun b member => same b (mem_cons_of_mem a member)
      rw [takeWhile_cons, takeWhile_cons, dropWhile_cons, dropWhile_cons,
        same a (mem_cons_self ..), front, back]
      exact ⟨rfl, rfl⟩
  rw [placed, placed, parts.1, parts.2]

theorem before_of_placed {a c : Fin cTimers}
    (before : [a, c].Sublist (placed pQueue pTimer u64Expire l)) (notA : a ≠ pTimer)
    (notC : c ≠ pTimer) : [a, c].Sublist l := by
  have erased := before.filter (· ≠ pTimer)
  have kept : [a, c].filter (· ≠ pTimer) = [a, c] := by simp [notA, notC]
  rw [kept, placed, filter_append, filter_cons_of_neg (by simp), ← filter_append,
    takeWhile_append_dropWhile] at erased
  exact erased.trans filter_sublist

/-- Whoever stands before the place of a timer expires no later. -/
theorem expires_before_placed {a : Fin cTimers} (fresh : pTimer ∉ l)
    (before : [a, pTimer].Sublist (placed pQueue pTimer u64Expire l)) :
    (pQueue.timer a).u64Expire ≤ u64Expire := by
  have ordered : (placed pQueue pTimer u64Expire l).Pairwise fun a c =>
      c = pTimer → staysBefore pQueue u64Expire a := by
    have notMem : ∀ a ∈ l, a ≠ pTimer := fun a member same => fresh (same ▸ member)
    rw [placed, pairwise_append, pairwise_cons]
    have front := takeWhile_sublist (l := l) (staysBefore pQueue u64Expire)
    have back := dropWhile_sublist (l := l) (staysBefore pQueue u64Expire)
    refine ⟨?_, ⟨?_, ?_⟩, ?_⟩
    · exact pairwise_of_forall_mem_list fun _ _ c member same =>
        absurd same (notMem c (front.subset member))
    · exact fun c member same => absurd same (notMem c (back.subset member))
    · exact pairwise_of_forall_mem_list fun _ _ c member same =>
        absurd same (notMem c (back.subset member))
    · exact fun a member _ _ _ => mem_takeWhile_imp member
  have stays := pairwise_iff_forall_sublist.mp ordered before rfl
  simpa [staysBefore] using stays

/-- An armed timer behind the place of another expires no earlier, if nothing misleads
the search. -/
theorem expires_behind_placed {c : Fin cTimers} (sorted : l.Pairwise (InOrder pQueue))
    (clear : Clear pQueue l u64Expire) (armed : pQueue.Armed c)
    (behind : c ∈ l.dropWhile (staysBefore pQueue u64Expire)) :
    u64Expire ≤ (pQueue.timer c).u64Expire := by
  by_contra early
  rw [Nat.not_le] at early
  cases rest : l.dropWhile (staysBefore pQueue u64Expire) with
  | nil =>
    rw [rest] at behind
    cases behind
  | cons d ds =>
    -- `d` is where the search stopped
    have stops : u64Expire < (pQueue.timer d).u64Expire := by
      have head := head_dropWhile_not (staysBefore pQueue u64Expire)
        (l := l) (by rw [rest]; exact cons_ne_nil d ds)
      simp only [rest, head_cons] at head
      simpa [staysBefore] using head
    rw [rest] at behind
    rcases mem_cons.mp behind with rfl | behind
    · exact absurd early (Nat.not_lt.mpr stops.le)
    · have order : [d, c].Sublist l := by
        have tail : [d, c].Sublist (d :: ds) := (singleton_sublist.mpr behind).cons_cons d
        rw [← rest] at tail
        exact tail.trans (dropWhile_sublist _)
      by_cases armedD : pQueue.Armed d
      · have sortedPair := pairwise_iff_forall_sublist.mp sorted order armedD armed
        exact absurd early (Nat.not_lt.mpr (stops.le.trans sortedPair))
      · exact absurd (clear d c order armedD armed early) (Nat.not_le.mpr stops)

/-- The expire time of the queue after an insertion. -/
theorem HeadExpire.link (head : HeadExpire pQueue l) (list : Represents pQueue.links l)
    (fresh : pTimer ∉ l) (t : TmTimer) :
    HeadExpire (tmTimerQueueLinkActive (pQueue.setTimer pTimer t) pTimer t.u64Expire)
      (placed (pQueue.setTimer pTimer t) pTimer t.u64Expire l) := by
  have other : ∀ a ∈ l, a ≠ pTimer := fun a member same => fresh (same ▸ member)
  have list' : Represents (pQueue.setTimer pTimer t).links l := list
  have expire := (tmTimerQueueLinkActive_represents t.u64Expire list' fresh).2
  have split := takeWhile_append_dropWhile
    (p := staysBefore (pQueue.setTimer pTimer t) t.u64Expire) (l := l)
  rw [placed] at expire ⊢
  cases front : l.takeWhile (staysBefore (pQueue.setTimer pTimer t) t.u64Expire) with
  | nil =>
    rw [front] at expire
    intro _
    rw [expire, tmTimerQueueLinkActive_timer, setTimer_self]
    simp
  | cons a as =>
    rw [front] at expire split
    have inA : a ∈ l := by
      rw [← split]
      exact mem_cons_self ..
    have notHead : ¬ (a :: as ++ pTimer ::
        l.dropWhile (staysBefore (pQueue.setTimer pTimer t) t.u64Expire)).head? =
        some pTimer := by
      rintro ⟨⟩
      exact fresh inA
    rw [if_neg notHead] at expire
    intro armed
    rw [TmTimerQueue.Armed, tmTimerQueueLinkActive_timer, setTimer_of_ne (other a inA)] at armed
    rw [expire, tmTimerQueueLinkActive_timer, setTimer_of_ne (other a inA)]
    rw [← split] at head
    exact head armed

/-- The expire time of the queue after a timer is taken out. -/
theorem HeadExpire.unlink (head : HeadExpire pQueue (xs ++ pTimer :: ys))
    (list : Represents pQueue.links (xs ++ pTimer :: ys)) (t : TmTimer) :
    HeadExpire (tmTimerQueueUnlinkActive (pQueue.setTimer pTimer t) pTimer) (xs ++ ys) := by
  have list' : Represents (pQueue.setTimer pTimer t).links (xs ++ pTimer :: ys) := list
  have expire := (tmTimerQueueUnlinkActive_represents list').2
  cases xs with
  | nil =>
    cases ys with
    | nil => exact expire
    | cons n ys =>
      intro _
      exact expire
  | cons x xs =>
    have other : x ≠ pTimer := by
      rintro rfl
      have nodup := list.nodup
      rw [nodup_middle] at nodup
      simp at nodup
    intro armed
    have armed : pQueue.Armed x := by
      have state : ((pQueue.setTimer pTimer t).timer x).enmState = .active := armed
      rwa [setTimer_of_ne other] at state
    show (tmTimerQueueUnlinkActive (pQueue.setTimer pTimer t) pTimer).u64Expire =
      ((pQueue.setTimer pTimer t).timer x).u64Expire
    rw [expire, setTimer_of_ne other]
    exact head armed

/-- Putting a timer in its place keeps the order if nothing misleads the search. -/
theorem QueueOk.link (ok : QueueOk pQueue l waiting) {t : TmTimer}
    (unlinked : ¬ (pQueue.timer pTimer).enmState.isLinked) (state : t.enmState = .active)
    (clear : Clear pQueue l t.u64Expire)
    (scheduled : ∀ a, a ∈ waiting' ↔ a ≠ pTimer ∧ a ∈ waiting) (once : waiting'.Nodup) :
    QueueOk (tmTimerQueueLinkActive (pQueue.setTimer pTimer t) pTimer t.u64Expire)
      (placed pQueue pTimer t.u64Expire l) waiting' := by
  have fresh : pTimer ∉ l := fun member => unlinked ((ok.linked pTimer).mp member)
  have other : ∀ a ∈ l, a ≠ pTimer := fun a member same => fresh (same ▸ member)
  have samePlace : placed (pQueue.setTimer pTimer t) pTimer t.u64Expire l =
      placed pQueue pTimer t.u64Expire l := by
    have same : ∀ a ∈ l, staysBefore (pQueue.setTimer pTimer t) t.u64Expire a =
        staysBefore pQueue t.u64Expire a := by
      intro a member
      rw [staysBefore, staysBefore, setTimer_of_ne (other a member)]
    exact placed_congr same
  have list : Represents (pQueue.setTimer pTimer t).links l := ok.list
  have represents := (tmTimerQueueLinkActive_represents t.u64Expire list fresh).1
  rw [samePlace] at represents
  have armedOld : ∀ a ∈ l, (pQueue.setTimer pTimer t).Armed a → pQueue.Armed a := by
    intro a member armed
    rwa [TmTimerQueue.Armed, setTimer_of_ne (other a member)] at armed
  constructor
  · exact represents
  · intro a
    rw [mem_placed, tmTimerQueueLinkActive_timer]
    by_cases same : a = pTimer
    · rw [same, setTimer_self, state]
      simp [TmTimerState.isLinked]
    · rw [setTimer_of_ne same, ← ok.linked a]
      simp [same]
  · intro a
    rw [scheduled a, tmTimerQueueLinkActive_timer]
    by_cases same : a = pTimer
    · rw [same, setTimer_self, state]
      simp [TmTimerState.isScheduled]
    · rw [setTimer_of_ne same, ← ok.scheduled a]
      simp [same]
  · exact once
  · have base : l.Pairwise (InOrder (tmTimerQueueLinkActive (pQueue.setTimer pTimer t) pTimer
        t.u64Expire)) := by
      refine ok.sorted.imp_of_mem fun {a c} inA inC ordered armed armed' => ?_
      rw [TmTimerQueue.Armed, tmTimerQueueLinkActive_timer] at armed armed'
      rw [tmTimerQueueLinkActive_timer, setTimer_of_ne (other a inA), setTimer_of_ne (other c inC)]
      exact ordered (armedOld a inA armed) (armedOld c inC armed')
    have split := takeWhile_append_dropWhile (p := staysBefore pQueue t.u64Expire) (l := l)
    have parts := split ▸ base
    rw [pairwise_append] at parts
    obtain ⟨front, back, across⟩ := parts
    rw [placed, pairwise_append, pairwise_cons]
    refine ⟨front, ⟨?_, back⟩, ?_⟩
    · -- behind the timer
      intro c inBack _ armed
      have inC := (dropWhile_sublist (l := l) _).subset inBack
      rw [TmTimerQueue.Armed, tmTimerQueueLinkActive_timer] at armed
      rw [tmTimerQueueLinkActive_timer, setTimer_self, setTimer_of_ne (other c inC)]
      exact expires_behind_placed ok.sorted clear (armedOld c inC armed) inBack
    · -- before it
      intro a inFront c inRest
      rcases mem_cons.mp inRest with rfl | inRest
      · intro _ _
        have inA := (takeWhile_sublist (l := l) _).subset inFront
        rw [tmTimerQueueLinkActive_timer, setTimer_self, setTimer_of_ne (other a inA)]
        simpa [staysBefore] using mem_takeWhile_imp inFront
      · exact across a inFront c inRest
  · have head := ok.head.link ok.list fresh t
    rwa [samePlace] at head

/-- Taking a timer out keeps the order of the others. -/
theorem QueueOk.unlink (ok : QueueOk pQueue (xs ++ pTimer :: ys) waiting) {t : TmTimer}
    (linked : t.enmState.isLinked = false)
    (scheduled : t.enmState.isScheduled = (pQueue.timer pTimer).enmState.isScheduled) :
    QueueOk (tmTimerQueueUnlinkActive (pQueue.setTimer pTimer t) pTimer) (xs ++ ys) waiting := by
  have nodup := ok.list.nodup
  rw [nodup_middle, nodup_cons] at nodup
  obtain ⟨fresh, -⟩ := nodup
  have other : ∀ a ∈ xs ++ ys, a ≠ pTimer := fun a member same => fresh (same ▸ member)
  have list : Represents (pQueue.setTimer pTimer t).links (xs ++ pTimer :: ys) := ok.list
  have represents := (tmTimerQueueUnlinkActive_represents list).1
  have armedOld : ∀ a ∈ xs ++ ys, (pQueue.setTimer pTimer t).Armed a → pQueue.Armed a := by
    intro a member armed
    rwa [TmTimerQueue.Armed, setTimer_of_ne (other a member)] at armed
  constructor
  · exact represents
  · intro a
    show a ∈ xs ++ ys ↔ ((pQueue.setTimer pTimer t).timer a).enmState.isLinked
    by_cases same : a = pTimer
    · rw [same, setTimer_self, linked]
      simp [fresh]
    · rw [setTimer_of_ne same, ← ok.linked a]
      simp [same]
  · intro a
    show a ∈ waiting ↔ ((pQueue.setTimer pTimer t).timer a).enmState.isScheduled
    by_cases same : a = pTimer
    · rw [same, setTimer_self, scheduled]
      exact ok.scheduled pTimer
    · rw [setTimer_of_ne same]
      exact ok.scheduled a
  · exact ok.once
  · have rest : (xs ++ ys).Pairwise (InOrder pQueue) :=
      ok.sorted.sublist ((sublist_cons_self pTimer ys).append_left xs)
    refine rest.imp_of_mem fun {a c} inA inC ordered armed armed' => ?_
    show ((pQueue.setTimer pTimer t).timer a).u64Expire ≤
      ((pQueue.setTimer pTimer t).timer c).u64Expire
    rw [setTimer_of_ne (other a inA), setTimer_of_ne (other c inC)]
    exact ordered (armedOld a inA armed) (armedOld c inC armed')
  · exact ok.head.unlink ok.list t

end Keeps

end VBox.Vmm.Tm
