import Mathlib.Tactic.Common
import VBox.Lib.Run
import VBox.Vmm.Pdm.BlkCacheReq

/-!
How a request of the block cache ends.

`request_iff` says for which runs a request is finished exactly once and reports every
failure: the medium refuses no transfer it needs, and if one of its transfers fails, not
all of them complete before the submitting call returns. `request_lost` has a run of
each other kind.
-/

namespace VBox.Vmm.Pdm

open VBox.Lib List

variable {rc : Int}

section Labels

/-- The kind of a piece of a request shorter than 4 GiB. -/
def pieceKind (dir : BlkCacheDir) (view : BlkCacheView) : Piece := (pieceAt dir 0 0 view).2

/-- The medium takes no transfer for a piece that waits for one. -/
def refused (dir : BlkCacheDir) : ReqLabel → Bool
  | .round view rcEnqueue =>
      match pieceKind dir view with
      | .copied => false
      | .waits enqueued => !enqueued
      | .fetched | .passedThrough => rtFailure rcEnqueue
  | _ => false

def failedXfer : ReqLabel → Bool
  | .complete rcIoXfer => rtFailure rcIoXfer
  | _ => false

/-- An enqueue call of the request or one of its transfers failed. -/
def failed (dir : BlkCacheDir) : ReqLabel → Bool
  | .round view rcEnqueue =>
      match pieceKind dir view with
      | .copied | .waits _ => false
      | .fetched | .passedThrough => rtFailure rcEnqueue
  | .leave => false
  | .complete rcIoXfer => rtFailure rcIoXfer

def isRound : ReqLabel → Bool
  | .round .. => true
  | _ => false

def isLeave : ReqLabel → Bool
  | .leave => true
  | _ => false

def isComplete : ReqLabel → Bool
  | .complete _ => true
  | _ => false

/-- A transfer completes after the submitting call has returned. -/
def completesLate (labels : List ReqLabel) : Bool :=
  (labels.dropWhile fun label => !isLeave label).any isComplete

/-- The medium refuses nothing, and a failure is not over before the call returns. -/
def Reported (dir : BlkCacheDir) (labels : List ReqLabel) : Prop :=
  (∀ label ∈ labels, refused dir label = false) ∧
    (labels.any failedXfer = true → completesLate labels = true)

/-- The request is finished exactly once, with a failure if anything of it failed. -/
def FinishedOnce (dir : BlkCacheDir) (labels : List ReqLabel) (s : ReqState) : Prop :=
  ∃ finish, s.finished = [finish] ∧ (labels.any (failed dir) = true → rtFailure finish.status)

theorem completesLate_complete {labels : List ReqLabel} (left : labels.any isLeave) :
    completesLate (labels ++ [ReqLabel.complete rc]) = true := by
  induction labels with
  | nil => cases left
  | cons label labels ih =>
    rw [any_cons, Bool.or_eq_true] at left
    rw [completesLate, cons_append]
    by_cases leaves : isLeave label = true
    · rw [dropWhile_cons_of_neg (by simp [leaves]), any_cons, any_append]
      simp [isComplete]
    · rw [dropWhile_cons_of_pos (by simpa using leaves)]
      exact ih (left.resolve_left leaves)

theorem completesLate_leave {labels : List ReqLabel} (notLeft : labels.any isLeave = false) :
    completesLate (labels ++ [ReqLabel.leave]) = false := by
  induction labels with
  | nil => rfl
  | cons label labels ih =>
    rw [any_cons, Bool.or_eq_false_iff] at notLeft
    rw [completesLate, cons_append, dropWhile_cons_of_pos (by simp [notLeft.1])]
    exact ih notLeft.2

end Labels

section Pieces

variable {dir : BlkCacheDir} {off cb : Nat} {view : BlkCacheView}

theorem pieceAt_kind (small : cb < 2 ^ 32) : (pieceAt dir off cb view).2 = pieceKind dir view := by
  rw [pieceKind]
  cases dir with
  | read =>
    cases view with
    | entry pEntry fEnough =>
      simp only [pieceAt, readPiece]
      split_ifs <;> rfl
    | noEntry above created => rfl
  | write =>
    cases view with
    | entry pEntry fEnough =>
      simp only [pieceAt, writePiece]
      split_ifs <;> rfl
    | noEntry above created =>
      cases created with
      | false => rfl
      | true =>
        have made : (true && decide (cb < 2 ^ 32)) = true := decide_eq_true small
        simp only [pieceAt, writePiece, if_pos made]
        rfl

/-- The loop gets on. -/
theorem pieceAt_pos (dir : BlkCacheDir) (small : cb < 2 ^ 32) (more : 0 < cb) (fits : view.fits off) :
    0 < (pieceAt dir off cb view).1 := by
  have clip : ∀ above : Option Nat, above.all (off < ·) → 0 < clipToAbove off cb above := by
    intro above fits
    cases above with
    | none => exact more
    | some above =>
      have later : off < above := by simpa using fits
      rw [clipToAbove]
      split
      · exact Nat.sub_pos_of_lt later
      · exact more
  have inside : ∀ pEntry : BlkCacheEntry, pEntry.key ≤ off → off < pEntry.key + pEntry.cbData →
      0 < min (pEntry.cbData - (off - pEntry.key)) cb := by
    intro pEntry first last
    exact Nat.lt_min.mpr ⟨by omega, more⟩
  cases dir with
  | read =>
    cases view with
    | entry pEntry fEnough =>
      simp only [BlkCacheView.fits, Bool.and_eq_true, decide_eq_true_eq] at fits
      have pos := inside pEntry fits.1 fits.2
      simp only [pieceAt, readPiece]
      split_ifs <;> exact pos
    | noEntry above created => exact clip above fits
  | write =>
    cases view with
    | entry pEntry fEnough =>
      simp only [BlkCacheView.fits, Bool.and_eq_true, decide_eq_true_eq] at fits
      have pos := inside pEntry fits.1 fits.2
      simp only [pieceAt, writePiece]
      split_ifs <;> exact pos
    | noEntry above created =>
      simp only [pieceAt, writePiece, Nat.mod_eq_of_lt small]
      split_ifs <;> exact clip above fits

end Pieces

variable {label : ReqLabel}

section Steps

variable {dir : BlkCacheDir} {cb : Nat} {past : List ReqLabel} {s s' : ReqState}

/-- What the request waits for: transfers in flight, transfers that never started, and the
submitting call. -/
def waitsFor (dir : BlkCacheDir) (past : List ReqLabel) (s : ReqState) : Nat :=
  s.inFlight + past.countP (refused dir) + if s.submitting then 1 else 0

/-- The request has not been finished: it waits for something and remembers failures. -/
structure Unfinished (dir : BlkCacheDir) (past : List ReqLabel) (s : ReqState)
    (pReq : PdmBlkCacheReq) : Prop where
  pending : pReq.cXfersPending = waitsFor dir past s
  waits : 0 < waitsFor dir past s
  finished : s.finished = []
  status : rtFailure pReq.rcReq = past.any failedXfer
  success : rtFailure pReq.rcReq = false → pReq.rcReq = vinfSuccess

/-- The request has been finished once, by the call or by the handler. -/
structure Finished (dir : BlkCacheDir) (past : List ReqLabel) (s : ReqState) : Prop where
  nothing : waitsFor dir past s = 0
  how : (s.finished = [.returned vinfSuccess] ∧ completesLate past = false) ∨
    ∃ rc, s.finished = [.handler rc] ∧ rtFailure rc = past.any failedXfer ∧
      completesLate past = true

structure ReqOk (dir : BlkCacheDir) (cb : Nat) (past : List ReqLabel) (s : ReqState) : Prop where
  direction : s.dir = dir
  rounds : past.countP isRound + s.cbLeft ≤ cb
  counted : s.inFlight + past.countP (refused dir) ≤ past.countP isRound
  left : past.any isLeave = !s.submitting
  request : match s.pReq with
    | some pReq => Unfinished dir past s pReq
    | none => Finished dir past s

theorem reqSubmit_ok (dir : BlkCacheDir) (off cb : Nat) :
    ReqOk dir cb [] (reqSubmit dir off cb) := by
  refine ⟨rfl, Nat.le_of_eq (Nat.zero_add cb), Nat.le_refl _, rfl, ?_⟩
  exact ⟨rfl, Nat.one_pos, rfl, rfl, fun _ => rfl⟩

variable {pReq : PdmBlkCacheReq} {fCallHandler : Bool}

theorem update_last (found : s.pReq = some pReq) (last : pReq.cXfersPending = 1) :
    pdmBlkCacheReqUpdate s rc fCallHandler =
      ({ s with
         pReq := none
         finished := if fCallHandler then s.finished ++ [.handler
           (if rtFailure rc && pReq.rcReq = vinfSuccess then rc else pReq.rcReq)]
           else s.finished }, true) := by
  rw [pdmBlkCacheReqUpdate, found]
  dsimp only
  rw [last, if_pos (by decide)]

theorem update_more {n : Nat} (found : s.pReq = some pReq) (more : pReq.cXfersPending = n + 2)
    (small : n + 2 < 2 ^ 32) : pdmBlkCacheReqUpdate s rc fCallHandler =
      ({ s with pReq := some ⟨if rtFailure rc && pReq.rcReq = vinfSuccess then rc else pReq.rcReq,
           n + 1⟩ }, false) := by
  have less : (n + 2 + (2 ^ 32 - 1)) % 2 ^ 32 = n + 1 := by omega
  rw [pdmBlkCacheReqUpdate, found]
  dsimp only
  rw [more, less, if_neg (Nat.succ_ne_zero n)]

/-- The error word after an update: the first failure stays. -/
theorem update_status (rc : Int) (success : rtFailure pReq.rcReq = false → pReq.rcReq = vinfSuccess)
    :
    rtFailure (if rtFailure rc && pReq.rcReq = vinfSuccess then rc else pReq.rcReq) =
        (rtFailure pReq.rcReq || rtFailure rc) ∧
      (rtFailure (if rtFailure rc && pReq.rcReq = vinfSuccess then rc else pReq.rcReq) = false →
        (if rtFailure rc && pReq.rcReq = vinfSuccess then rc else pReq.rcReq) = vinfSuccess) := by
  cases fails : rtFailure rc with
  | false => simpa using success
  | true =>
    cases before : rtFailure pReq.rcReq with
    | false => simp [success before, fails]
    | true =>
      have notSuccess : pReq.rcReq ≠ vinfSuccess := by
        intro same
        rw [same] at before
        cases before
      simp [notSuccess, before]

variable {p : ReqLabel → Bool}

theorem any_append_singleton : (past ++ [label]).any p = (past.any p || p label) := by
  rw [any_append, any_cons, any_nil, Bool.or_false]

theorem countP_append_singleton :
    (past ++ [label]).countP p = past.countP p + if p label then 1 else 0 := by
  rw [countP_append, countP_singleton]

theorem ReqOk.unfinished (ok : ReqOk dir cb past s) (more : 0 < waitsFor dir past s) :
    ∃ pReq, s.pReq = some pReq ∧ Unfinished dir past s pReq := by
  have request := ok.request
  cases found : s.pReq with
  | none =>
    rw [found] at request
    exact absurd request.nothing (Nat.ne_of_gt more)
  | some pReq =>
    rw [found] at request
    exact ⟨pReq, rfl, request⟩

/-- The counter is never near its limit. -/
theorem ReqOk.small (ok : ReqOk dir cb past s) (short : cb + 1 < 2 ^ 32) :
    waitsFor dir past s < 2 ^ 32 := by
  have rounds := ok.rounds
  have counted := ok.counted
  rw [waitsFor]
  split <;> omega

theorem complete_ok (ok : ReqOk dir cb past s) (short : cb + 1 < 2 ^ 32) (inFlight : 0 < s.inFlight)
    : ReqOk dir cb (past ++ [ReqLabel.complete rc]) (reqXferComplete s rc) := by
  have waiting : 0 < waitsFor dir past s := by
    rw [waitsFor]
    omega
  obtain ⟨pReq, found, request⟩ := ok.unfinished waiting
  have small := ok.small short
  have counted := ok.counted
  obtain ⟨status, success⟩ := update_status rc request.success
  have less : waitsFor dir (past ++ [ReqLabel.complete rc]) { s with inFlight := s.inFlight - 1 } + 1 =
      waitsFor dir past s := by
    rw [waitsFor, waitsFor, countP_append_singleton]
    simp only [refused, Bool.false_eq_true, if_false]
    omega
  have status' : (past ++ [ReqLabel.complete rc]).any failedXfer =
      (rtFailure pReq.rcReq || rtFailure rc) := by
    rw [any_append_singleton, request.status]
    rfl
  have left : (past ++ [ReqLabel.complete rc]).any isLeave = !s.submitting := by
    rw [any_append_singleton, ok.left]
    exact Bool.or_false _
  have rounds : (past ++ [ReqLabel.complete rc]).countP isRound + s.cbLeft ≤ cb := by
    rw [countP_append_singleton]
    exact ok.rounds
  have counted' : s.inFlight - 1 + (past ++ [ReqLabel.complete rc]).countP (refused dir) ≤
      (past ++ [ReqLabel.complete rc]).countP isRound := by
    rw [countP_append_singleton, countP_append_singleton]
    simp only [refused, isRound, Bool.false_eq_true, if_false]
    omega
  rw [reqXferComplete]
  cases pending : waitsFor dir past s with
  | zero => exact absurd pending (Nat.ne_of_gt waiting)
  | succ n =>
    have count := request.pending.trans pending
    cases n with
    | zero =>
      have submitting : s.submitting = false := by
        rw [waitsFor] at pending
        cases value : s.submitting with
        | false => rfl
        | true =>
          rw [value, if_pos rfl] at pending
          omega
      rw [update_last (s := { s with inFlight := s.inFlight - 1 }) found count]
      refine ⟨ok.direction, rounds, counted', left, ?_, .inr ⟨
        if rtFailure rc && pReq.rcReq = vinfSuccess then rc else pReq.rcReq, ?_, ?_, ?_⟩⟩
      · show waitsFor dir (past ++ [ReqLabel.complete rc]) { s with inFlight := s.inFlight - 1 } = 0
        omega
      · show s.finished ++ [_] = [_]
        rw [request.finished]
        rfl
      · rw [status, status']
      · refine completesLate_complete ?_
        rw [ok.left, submitting]
        rfl
    | succ n =>
      rw [update_more (s := { s with inFlight := s.inFlight - 1 }) found count
        (by rw [pending] at small; exact small)]
      refine ⟨ok.direction, rounds, counted', left, ?_, ?_, request.finished, ?_, success⟩
      · show n + 1 = waitsFor dir (past ++ [ReqLabel.complete rc]) { s with inFlight := s.inFlight - 1 }
        omega
      · show 0 < waitsFor dir (past ++ [ReqLabel.complete rc]) { s with inFlight := s.inFlight - 1 }
        omega
      · rw [status', ← status]

theorem leave_ok (ok : ReqOk dir cb past s) (short : cb + 1 < 2 ^ 32)
    (submitting : s.submitting = true) : ReqOk dir cb (past ++ [ReqLabel.leave]) (reqLeave s) := by
  have waiting : 0 < waitsFor dir past s := by
    rw [waitsFor, submitting, if_pos rfl]
    omega
  obtain ⟨pReq, found, request⟩ := ok.unfinished waiting
  have small := ok.small short
  have less : waitsFor dir (past ++ [ReqLabel.leave]) { s with submitting := false } + 1 =
      waitsFor dir past s := by
    rw [waitsFor, waitsFor, countP_append_singleton, submitting]
    rfl
  have left : (past ++ [ReqLabel.leave]).any isLeave = !false := by
    rw [any_append_singleton]
    exact Bool.or_true _
  have notLeft : past.any isLeave = false := by
    rw [ok.left, submitting]
    rfl
  have rounds : (past ++ [ReqLabel.leave]).countP isRound + s.cbLeft ≤ cb := by
    rw [countP_append_singleton]
    exact ok.rounds
  have counted : s.inFlight + (past ++ [ReqLabel.leave]).countP (refused dir) ≤
      (past ++ [ReqLabel.leave]).countP isRound := by
    rw [countP_append_singleton, countP_append_singleton]
    exact ok.counted
  have same : (if rtFailure vinfSuccess && pReq.rcReq = vinfSuccess then vinfSuccess
      else pReq.rcReq) = pReq.rcReq := if_neg (by simp [rtFailure, vinfSuccess])
  rw [reqLeave]
  cases pending : waitsFor dir past s with
  | zero => exact absurd pending (Nat.ne_of_gt waiting)
  | succ n =>
    have count := request.pending.trans pending
    cases n with
    | zero =>
      rw [update_last (s := { s with submitting := false }) found count]
      refine ⟨ok.direction, rounds, counted, left, ?_, .inl ⟨?_, completesLate_leave notLeft⟩⟩
      · show waitsFor dir (past ++ [ReqLabel.leave]) { s with submitting := false } = 0
        omega
      · show s.finished ++ [_] = [_]
        rw [request.finished]
        rfl
    | succ n =>
      rw [update_more (s := { s with submitting := false }) found count
        (by rw [pending] at small; exact small), same]
      refine ⟨ok.direction, rounds, counted, left, ?_, ?_, request.finished, ?_, request.success⟩
      · show n + 1 = waitsFor dir (past ++ [ReqLabel.leave]) { s with submitting := false }
        omega
      · show 0 < waitsFor dir (past ++ [ReqLabel.leave]) { s with submitting := false }
        omega
      · rw [any_append_singleton, request.status]
        exact (Bool.or_false _).symm

/-- A round, by the kind of its piece: a piece that is not copied adds one transfer, which
is in flight unless it is refused. -/
theorem reqRound_eq (view : BlkCacheView) (rcEnqueue : Int) {pReq : PdmBlkCacheReq}
    (ok : ReqOk dir cb past s) (short : cb + 1 < 2 ^ 32) (found : s.pReq = some pReq) :
    let next := { s with
      off := s.off + (pieceAt s.dir s.off s.cbLeft view).1
      cbLeft := s.cbLeft - (pieceAt s.dir s.off s.cbLeft view).1 }
    (pieceKind dir view = .copied ∧ reqRound s view rcEnqueue = next) ∨
      (pieceKind dir view ≠ .copied ∧ reqRound s view rcEnqueue = { next with
        pReq := some { pReq with cXfersPending := (pReq.cXfersPending + 1) % 2 ^ 32 }
        inFlight := s.inFlight + if refused dir (.round view rcEnqueue) then 0 else 1 }) := by
  have rounds := ok.rounds
  have kind : (pieceAt s.dir s.off s.cbLeft view).2 = pieceKind dir view := by
    rw [ok.direction]
    exact pieceAt_kind (by omega)
  dsimp only
  rw [reqRound, refused]
  dsimp only
  rw [kind]
  cases pieceKind dir view with
  | copied => exact .inl ⟨rfl, rfl⟩
  | waits enqueued =>
    refine .inr ⟨(fun same => by cases same), ?_⟩
    cases enqueued <;> simp [ReqState.incXfers, ReqState.enqueue, found, rtFailure, vinfSuccess]
  | fetched | passedThrough =>
    refine .inr ⟨(fun same => by cases same), ?_⟩
    cases fails : rtFailure rcEnqueue <;> simp [ReqState.incXfers, ReqState.enqueue, found, fails]

theorem round_ok {view : BlkCacheView} {rcEnqueue : Int} (ok : ReqOk dir cb past s)
    (short : cb + 1 < 2 ^ 32) (submitting : s.submitting = true) (more : 0 < s.cbLeft)
    (fits : view.fits s.off) :
    ReqOk dir cb (past ++ [.round view rcEnqueue]) (reqRound s view rcEnqueue) := by
  have waiting : 0 < waitsFor dir past s := by
    rw [waitsFor, submitting, if_pos rfl]
    omega
  obtain ⟨pReq, found, request⟩ := ok.unfinished waiting
  have rounds := ok.rounds
  have counted := ok.counted
  have pos := pieceAt_pos s.dir (by omega : s.cbLeft < 2 ^ 32) more fits
  have rounds' : (past ++ [ReqLabel.round view rcEnqueue]).countP isRound +
      (s.cbLeft - (pieceAt s.dir s.off s.cbLeft view).1) ≤ cb := by
    rw [countP_append_singleton, isRound, if_pos rfl]
    omega
  have left : (past ++ [ReqLabel.round view rcEnqueue]).any isLeave = !s.submitting := by
    rw [any_append_singleton, ok.left]
    exact Bool.or_false _
  have status : rtFailure pReq.rcReq =
      (past ++ [ReqLabel.round view rcEnqueue]).any failedXfer := by
    rw [any_append_singleton, request.status]
    exact (Bool.or_false _).symm
  have pending := request.pending
  rcases reqRound_eq view rcEnqueue ok short found with ⟨copied, next⟩ | ⟨kind, next⟩
  · -- the piece is copied
    have free : refused dir (.round view rcEnqueue) = false := by
      rw [refused, copied]
    have same : (past ++ [ReqLabel.round view rcEnqueue]).countP (refused dir) =
        past.countP (refused dir) := by
      rw [countP_append_singleton, free]
      rfl
    rw [next]
    refine ⟨ok.direction, rounds', ?_, left, ?_⟩
    · rw [same, countP_append_singleton]
      exact Nat.le_trans counted (Nat.le_add_right _ _)
    · dsimp only
      rw [found]
      refine ⟨?_, ?_, request.finished, status, request.success⟩
      · rw [waitsFor, same]
        exact pending
      · rw [waitsFor, same]
        exact waiting
  · -- the request waits for one more transfer
    have one : (if refused dir (.round view rcEnqueue) then 0 else 1) +
        (past ++ [ReqLabel.round view rcEnqueue]).countP (refused dir) =
        past.countP (refused dir) + 1 := by
      rw [countP_append_singleton]
      split <;> omega
    rw [next]
    refine ⟨ok.direction, rounds', ?_, left, ?_⟩
    · rw [countP_append_singleton (p := isRound), isRound, if_pos rfl]
      dsimp only
      omega
    · refine ⟨?_, ?_, request.finished, status, request.success⟩
      · dsimp only
        rw [waitsFor, submitting, if_pos rfl] at pending ⊢
        dsimp only
        omega
      · rw [waitsFor, submitting, if_pos rfl]
        omega

theorem step_ok (ok : ReqOk dir cb past s) (short : cb + 1 < 2 ^ 32) (step : ReqStep s label s') :
    ReqOk dir cb (past ++ [label]) s' := by
  rw [ReqStep] at step
  cases label with
  | round view rcEnqueue =>
    rw [ReqState.step] at step
    split at step
    case isTrue may =>
      cases step
      simp only [Bool.and_eq_true, decide_eq_true_eq] at may
      exact round_ok ok short may.1.1 may.1.2 may.2
    case isFalse => cases step
  | leave =>
    rw [ReqState.step] at step
    split at step
    case isTrue may =>
      cases step
      simp only [Bool.and_eq_true] at may
      exact leave_ok ok short may.1
    case isFalse => cases step
  | complete rc =>
    rw [ReqState.step] at step
    split at step
    case isTrue may =>
      cases step
      exact complete_ok ok short may
    case isFalse => cases step

end Steps

section Runs

variable {dir : BlkCacheDir} {off cb : Nat} {labels : List ReqLabel} {s : ReqState}

theorem run_reqOk (short : cb + 1 < 2 ^ 32) (run : Run ReqStep (reqSubmit dir off cb) labels s) :
    ReqOk dir cb labels s :=
  run.history (ReqOk dir cb) (fun {_ _ _ _} ok step => step_ok ok short step)
    (reqSubmit_ok dir off cb)

theorem failed_le_refused (fails : failed dir label = true) :
    refused dir label = true ∨ failedXfer label = true := by
  cases label with
  | round view rcEnqueue =>
    left
    rw [failed] at fails
    rw [refused]
    cases kind : pieceKind dir view <;> rw [kind] at fails <;> first | exact fails | cases fails
  | leave => cases fails
  | complete rc => exact .inr fails

theorem failed_of_failedXfer (fails : failedXfer label = true) : failed dir label = true := by
  cases label with
  | complete rc => exact fails
  | round view rcEnqueue => cases fails
  | leave => cases fails

/-- A request whose submitting call has returned and whose transfers have all completed is
finished exactly once and reports its failures exactly if the run meets `Reported`; and
the submitting call returns after at most `cb` pieces. -/
theorem request_iff (short : cb + 1 < 2 ^ 32)
    (run : Run ReqStep (reqSubmit dir off cb) labels s) :
    labels.countP isRound ≤ cb ∧
      (s.submitting = false → s.inFlight = 0 →
        (FinishedOnce dir labels s ↔ Reported dir labels)) := by
  have ok := run_reqOk short run
  refine ⟨Nat.le_trans (Nat.le_add_right _ _) ok.rounds, fun returned idle => ?_⟩
  have waits : waitsFor dir labels s = labels.countP (refused dir) := by
    rw [waitsFor, returned, idle]
    simp
  have request := ok.request
  cases found : s.pReq with
  | some pReq =>
    -- something was refused, and the request waits for it for ever
    rw [found] at request
    constructor
    · rintro ⟨finish, finished, -⟩
      rw [request.finished] at finished
      cases finished
    · rintro ⟨accepted, -⟩
      have none : labels.countP (refused dir) = 0 :=
        countP_eq_zero.mpr fun label member => by simp [accepted label member]
      exact absurd (waits.trans none) (Nat.ne_of_gt request.waits)
  | none =>
    rw [found] at request
    obtain ⟨nothing, how⟩ := request
    have accepted : ∀ label ∈ labels, refused dir label = false := by
      intro label member
      have none := countP_eq_zero.mp (waits.symm.trans nothing) label member
      simpa using none
    have same : labels.any (failed dir) = labels.any failedXfer := by
      rw [Bool.eq_iff_iff, any_eq_true, any_eq_true]
      constructor
      · rintro ⟨label, member, fails⟩
        rcases failed_le_refused fails with refuses | fails
        · rw [accepted label member] at refuses
          cases refuses
        · exact ⟨label, member, fails⟩
      · rintro ⟨label, member, fails⟩
        exact ⟨label, member, failed_of_failedXfer fails⟩
    rcases how with ⟨finished, early⟩ | ⟨rc, finished, status, late⟩
    · constructor
      · rintro ⟨finish, once, reports⟩
        rw [finished] at once
        cases once
        refine ⟨accepted, fun fails => ?_⟩
        have reported := reports (same.trans fails)
        cases reported
      · rintro ⟨-, reports⟩
        refine ⟨_, finished, fun fails => ?_⟩
        have late := reports (same.symm.trans fails)
        rw [early] at late
        cases late
    · constructor
      · exact fun _ => ⟨accepted, fun _ => late⟩
      · intro _
        refine ⟨_, finished, fun fails => ?_⟩
        exact status.trans (same.symm.trans fails)

/-- A read of an uncached sector whose transfer fails after the call has returned. -/
theorem request_iff_late : ∃ s, Run ReqStep (reqSubmit .read 0 512)
      [.round (.noEntry none true) vinfAioTaskPending, .leave, .complete (-5)] s ∧
    s.finished = [.handler (-5)] ∧
    FinishedOnce .read [.round (.noEntry none true) vinfAioTaskPending, .leave, .complete (-5)]
      s := by
  have run : Run ReqStep (reqSubmit .read 0 512)
      [.round (.noEntry none true) vinfAioTaskPending, .leave, .complete (-5)] _ :=
    .next rfl (.next rfl (.next rfl (.done _)))
  refine ⟨_, run, rfl, ((request_iff (by decide) run).2 rfl rfl).mpr ⟨?_, fun _ => rfl⟩⟩
  decide

/-- A request that waits for a refused transfer is never finished: a sector that is passed
through, and a sector of a ghost entry that is to be fetched. A request whose only
transfer fails before the submitting call returns is finished as a success. -/
theorem request_lost :
    (∃ s, Run ReqStep (reqSubmit .read 0 512) [.round (.noEntry none true) (-5), .leave] s ∧
      s.submitting = false ∧ s.inFlight = 0 ∧ s.finished = []) ∧
    (∃ s, Run ReqStep (reqSubmit .write 0 512)
        [.round (.entry ⟨0, 4096, .lruRecentlyUsedOut, false, false, true⟩ true) (-5), .leave] s ∧
      s.submitting = false ∧ s.inFlight = 0 ∧ s.finished = []) ∧
    ∃ s, Run ReqStep (reqSubmit .read 0 512)
        [.round (.noEntry none true) vinfAioTaskPending, .complete (-5), .leave] s ∧
      s.submitting = false ∧ s.inFlight = 0 ∧ s.finished = [.returned vinfSuccess] ∧
      ¬ FinishedOnce .read
        [.round (.noEntry none true) vinfAioTaskPending, .complete (-5), .leave] s := by
  refine ⟨⟨_, .next rfl (.next rfl (.done _)), rfl, rfl, rfl⟩,
    ⟨_, .next rfl (.next rfl (.done _)), rfl, rfl, rfl⟩,
    ⟨_, .next rfl (.next rfl (.next rfl (.done _))), rfl, rfl, rfl, ?_⟩⟩
  rintro ⟨finish, once, reports⟩
  cases once
  cases reports (by decide)

end Runs

end VBox.Vmm.Pdm
