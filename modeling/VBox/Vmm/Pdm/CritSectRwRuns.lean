import VBox.Lib.Run
import VBox.Vmm.Pdm.CritSectRwSteps

/-!
Exclusion of the read/write critical section, in every run.

The counts of the state word have 15 bits and the recursion counts 32; the code only asserts
that they suffice. `run_excludes` is about the runs that count no further.
-/

namespace VBox.Vmm.Pdm

open VBox.Lib

variable {ι : Type} [Fintype ι] [DecidableEq ι] {m m' : RwMachine ι} {as : List (ι × RwLabel)}

/-! ### Exclusion -/

/-- Who is inside, and what the state word says of it. -/
structure RwMachine.Excludes (m : RwMachine ι) : Prop where
  one : ∀ t u, 0 < (m.thread t).cExcl → 0 < (m.thread u).cExcl → t = u
  alone : ∀ t u, 0 < (m.thread t).cExcl → u ≠ t → (m.thread u).cShared = 0
  write : ∀ t, 0 < (m.thread t).cExcl → dirWrite m.sect.u64State = true
  rd : cntRd m.sect.u64State = ∑ t, (m.thread t).rd
  wr : cntWr m.sect.u64State = ∑ t, (m.thread t).wr

omit [DecidableEq ι] in
theorem RwMachine.Ok.excludes (ok : m.Ok) : m.Excludes := by
  have one : ∀ t u, 0 < (m.thread t).cExcl → 0 < (m.thread u).cExcl → t = u :=
    fun t u first second => ok.owner_unique (.inl first) (.inl second)
  constructor
  · exact one
  · intro t u inside other
    by_contra shared
    have outside : (m.thread u).cExcl = 0 := by
      by_contra some
      exact other (one u t (Nat.pos_of_ne_zero some) inside)
    exact ok.reading (ok.dir_of_owner (.inl inside)) u (.inl ⟨outside, Nat.pos_of_ne_zero shared⟩)
  · exact fun t inside => ok.dir_of_owner (.inl inside)
  · exact ok.rd
  · exact ok.wr

theorem fields_zero : Fields 0 0 0 false 0 := ⟨by decide, by decide, by decide, by decide⟩

omit [DecidableEq ι] in
theorem RwMachine.init_ok : (RwMachine.init ι).Ok := by
  constructor
  · exact fun _ => trivial
  · have none : ∑ t, ((RwMachine.init ι).thread t).rd = 0 := Finset.sum_eq_zero fun _ _ => rfl
    exact (fields_zero.rd).trans none.symm
  · have none : ∑ t, ((RwMachine.init ι).thread t).wr = 0 := Finset.sum_eq_zero fun _ _ => rfl
    exact (fields_zero.wr).trans none.symm
  · have none : ∑ t, ((RwMachine.init ι).thread t).pc.wait = 0 := Finset.sum_eq_zero fun _ _ => rfl
    exact (fields_zero.wait).trans none.symm
  · intro t
    constructor
    · intro writer
      cases writer
    · rintro (some | owns)
      · cases some
      · cases owns
  · intro _ t
    rintro (⟨-, some⟩ | inside)
    · cases some
    · cases inside
  · intro _ t
    rintro ((some | owns) | grabs)
    · cases some
    · cases owns
    · cases grabs
  · rintro t (some | owns)
    · cases some
    · cases owns
  · exact fun _ => rfl
  · intro t some
    cases some
  · exact ⟨Nat.two_pow_pos 32, Nat.two_pow_pos 32⟩

theorem run_ok (run : Run (Guarded CountsFit RwStep) (RwMachine.init ι) as m) : m.Ok :=
  run.invariant RwMachine.Ok (fun ok step => ok.step step.1 step.2) RwMachine.init_ok

/-- Threads exclude each other, whatever their calls and however their steps interleave. -/
theorem run_excludes (run : Run (Guarded CountsFit RwStep) (RwMachine.init ι) as m) :
    m.Excludes :=
  (run_ok run).excludes

/-- One thread goes in exclusively. -/
def enterExclLabels (t : ι) : List (ι × RwLabel) :=
  (t, .call (.enterExcl false)) :: List.replicate 5 (t, .step)

theorem run_excludes_one : ∃ m, Run (Guarded CountsFit RwStep) (RwMachine.init Bool)
    (enterExclLabels true) m ∧ (m.thread true).cExcl = 1 ∧ m.Excludes := by
  obtain ⟨m, run, inside⟩ := Run.exists_of_follow CountsFit
    (fun m a => m.step a.1 a.2) (RwMachine.init Bool) (enterExclLabels true)
    (fun m => (m.thread true).cExcl = 1) (by decide +kernel)
  exact ⟨m, run, inside, run_excludes run⟩

/-! ### Queries -/

section

variable (s : CritSectRw ι) (self : ι)

def pdmCritSectRwIsWriteOwner : Bool := s.hNativeWriter = some self

def pdmCritSectRwIsReadOwner (fWannaHear : Bool) : Bool :=
  -- Nobody else makes the caller the writer, or ends that, between the two reads.
  if dirWrite s.u64State then pdmCritSectRwIsWriteOwner s self
  else cntRd s.u64State ≠ 0 && fWannaHear

def pdmCritSectRwGetReadCount : Nat := if dirWrite s.u64State then 0 else cntRd s.u64State

end

/-- What a thread outside of calls hears, and what is counted when all threads are. -/
structure RwMachine.Answers (m : RwMachine ι) : Prop where
  writeOwner : ∀ t, (m.thread t).pc = .outside →
    pdmCritSectRwIsWriteOwner m.sect t = decide (0 < (m.thread t).cExcl)
  readOwner : ∀ t, (m.thread t).pc = .outside → 0 < (m.thread t).cShared →
    pdmCritSectRwIsReadOwner m.sect t true = true
  notReadOwner : ∀ t, (m.thread t).pc = .outside → (m.thread t).cExcl = 0 →
    pdmCritSectRwIsReadOwner m.sect t false = false
  readCount : (∀ t, (m.thread t).pc = .outside) → (∀ t, (m.thread t).cExcl = 0) →
    pdmCritSectRwGetReadCount m.sect = ∑ t, (m.thread t).cShared

theorem run_answers (run : Run (Guarded CountsFit RwStep) (RwMachine.init ι) as m) : m.Answers := by
  have ok := run_ok run
  have owner : ∀ t, (m.thread t).pc = .outside →
      pdmCritSectRwIsWriteOwner m.sect t = decide (0 < (m.thread t).cExcl) := by
    intro t out
    refine decide_eq_decide.mpr ((ok.owner t).trans (or_iff_left ?_))
    rw [out]
    exact nofun
  refine ⟨owner, fun t out held => ?_, fun t out none => ?_, fun out none => ?_⟩
  · unfold pdmCritSectRwIsReadOwner
    split
    case isTrue write =>
      rw [owner t out, decide_eq_true_eq]
      by_contra notIn
      exact ok.reading write t (.inl ⟨Nat.eq_zero_of_not_pos notIn, held⟩)
    case isFalse read =>
      have notIn : (m.thread t).cExcl = 0 := by
        by_contra some
        exact read (ok.dir_of_owner (.inl (Nat.pos_of_ne_zero some)))
      have counted : (m.thread t).rd ≤ cntRd m.sect.u64State := ok.rd_le
      rw [RwThread.rd, if_pos notIn] at counted
      simp only [Bool.and_true, ne_eq, decide_eq_true_eq]
      omega
  · simp [pdmCritSectRwIsReadOwner, owner t out, none]
  · have own : ∀ t, (m.thread t).rd = (m.thread t).cShared := fun t => by
      simp [RwThread.rd, out t, RwPc.rd, none t]
    rw [pdmCritSectRwGetReadCount, ok.rd, Finset.sum_congr rfl fun t _ => own t]
    split
    case isTrue write =>
      refine (Finset.sum_eq_zero fun t _ => Nat.eq_zero_of_not_pos fun held => ?_).symm
      exact ok.reading write t (.inl ⟨none t, held⟩)
    case isFalse => rfl

theorem run_answers_one : ∃ m, Run (Guarded CountsFit RwStep) (RwMachine.init Bool)
    (enterExclLabels true) m ∧ (m.thread true).cExcl = 1 ∧ m.Answers := by
  obtain ⟨m, run, inside⟩ := Run.exists_of_follow CountsFit
    (fun m a => m.step a.1 a.2) (RwMachine.init Bool) (enterExclLabels true)
    (fun m => (m.thread true).cExcl = 1) (by decide +kernel)
  exact ⟨m, run, inside, run_answers run⟩

/-! ### Past the counts -/

/-- One thread has entered shared `n` times, and nobody else anything. -/
def sharedTimes (n : Nat) : RwMachine Bool :=
  ⟨⟨n, none, 0, 0, false, false, false⟩,
    Function.update (RwMachine.init Bool).thread true ⟨.outside, n, 0⟩⟩

theorem sharedTimes_next {n : Nat} (small : n < 32768) : Run RwStep (sharedTimes n)
    [(true, .call (.enterShared false)), (true, .step), (true, .step)] (sharedTimes (n + 1)) := by
  have read : dirWrite n = false := by
    have bit : field 31 1 n = 0 := by
      unfold field
      omega
    rw [dirWrite, bit]
    rfl
  have next : setCntRd n (cntRd n + 1) = n + 1 := by
    have count : field 0 15 n = n := by
      unfold field
      omega
    have fits : (n + 1) * 2 ^ 0 % 2 ^ 64 = n + 1 := by omega
    rw [setCntRd, cntRd, setField, count, fits, Nat.pow_zero, Nat.mul_one, Nat.sub_self,
      Nat.zero_or]
  have last : RwStep (⟨(sharedTimes n).sect, Function.update (sharedTimes n).thread true
      ⟨.sharedLoop false n, n, 0⟩⟩ : RwMachine Bool) (true, .step) (sharedTimes (n + 1)) := by
    simp [RwStep, RwMachine.step, labelStep, threadStep, sharedLoop, casState, read, next,
      sharedTimes]
  refine .next (t := ⟨(sharedTimes n).sect, Function.update (sharedTimes n).thread true
      ⟨.sharedRead false, n, 0⟩⟩) ?_ (.next ?_ (.next last (.done _)))
  · simp [RwStep, RwMachine.step, labelStep, sharedTimes, RwThread.MayCall, RwOp.start]
  · simp [RwStep, RwMachine.step, labelStep, threadStep, sharedTimes]

theorem sharedTimes_run (n : Nat) (small : n ≤ 32768) :
    ∃ as, Run RwStep (RwMachine.init Bool) as (sharedTimes n) := by
  induction n with
  | zero =>
    have start : sharedTimes 0 = RwMachine.init Bool :=
      congrArg (RwMachine.mk _) (Function.update_eq_self true _)
    rw [start]
    exact ⟨[], .done _⟩
  | succ n ih =>
    obtain ⟨as, run⟩ := ih (by omega)
    exact ⟨_, run.append (sharedTimes_next small)⟩

/-- The count that overflows lets a writer in beside 32768 shared entries. -/
theorem sharedTimes_overflows : ∃ as m, Run RwStep (RwMachine.init Bool) as m ∧
    (m.thread true).cShared = 32768 ∧ (m.thread false).cExcl = 1 ∧ ¬ m.Excludes := by
  obtain ⟨as, run⟩ := sharedTimes_run 32768 (Nat.le_refl _)
  obtain ⟨m, more, shared, inside⟩ := Run.exists_of_follow (fun _ _ => True)
    (fun m a => m.step a.1 a.2) (sharedTimes 32768) (enterExclLabels false)
    (fun m => (m.thread true).cShared = 32768 ∧ (m.thread false).cExcl = 1) (by decide +kernel)
  refine ⟨_, m, run.append (more.mono fun step => step.2), shared, inside, fun excludes => ?_⟩
  have free := excludes.alone false true (inside ▸ Nat.one_pos) (by decide)
  rw [shared] at free
  cases free

end VBox.Vmm.Pdm
