import VBox.Vmm.Pdm.CritSectRwInvariant

/-!
The steps of the read/write critical section keep its invariant.

`RwMachine.Ok.move` is for the accesses that change nothing the invariant speaks of; the
compare and swaps of the state word come in one lemma each.
-/

namespace VBox.Vmm.Pdm

open VBox.Lib Option

variable {ι : Type} [Fintype ι] {m m' : RwMachine ι} {me : ι} {sect' : CritSectRw ι}
  {th' : RwThread} {pc pc' : RwPc}

/-- The counts have room for one more. -/
def RwPc.Room (s : CritSectRw ι) : RwPc → Prop
  | .sharedLoop _ _ => dirWrite s.u64State = false → cntRd s.u64State < cntMask
  | .sharedQueue _ => cntRd s.u64State < cntMask
  | .exclLoop _ _ => cntWr s.u64State < cntMask
  | .sharedRecurse => s.cWriterReads + 1 < 2 ^ 32
  | .exclRecurse => s.cWriteRecursions + 1 < 2 ^ 32
  | _ => True

instance (s : CritSectRw ι) : DecidablePred (RwPc.Room s) := fun pc => by
  cases pc <;> unfold RwPc.Room <;> infer_instance

/-- A step does not count past what a field of the state word or a recursion count holds. -/
def CountsFit (m : RwMachine ι) (a : ι × RwLabel) : Prop :=
  a.2 = .step → (m.thread a.1).pc.Room m.sect

instance (m : RwMachine ι) (a : ι × RwLabel) : Decidable (CountsFit m a) :=
  inferInstanceAs (Decidable (_ → _))

/-- Two places a thread counts the same at. -/
structure SameRole (pc pc' : RwPc) : Prop where
  rd : pc'.rd = pc.rd
  wr : pc'.wr = pc.wr
  wait : pc'.wait = pc.wait
  owns : pc'.owns = pc.owns

/-- The members the invariant speaks of are as they were. -/
structure SameSect (s s' : CritSectRw ι) : Prop where
  u64State : s'.u64State = s.u64State
  hNativeWriter : s'.hNativeWriter = s.hNativeWriter
  cWriterReads : s'.cWriterReads = s.cWriterReads
  cWriteRecursions : s'.cWriteRecursions = s.cWriteRecursions

omit [Fintype ι] in
theorem SameSect.refl (s : CritSectRw ι) : SameSect s s := ⟨rfl, rfl, rfl, rfl⟩

namespace RwThread

variable {th : RwThread}

theorem not_owner (none : th.cExcl = 0) (owns : th.pc.owns = false) : ¬ th.Owner := by
  rintro (some | inside)
  · exact absurd none (Nat.ne_of_gt some)
  · rw [owns] at inside
    cases inside

theorem not_reading (free : th.cShared = 0) (reads : th.pc.reads = false) : ¬ th.Reading := by
  rintro (⟨-, some⟩ | inside)
  · exact absurd free (Nat.ne_of_gt some)
  · rw [reads] at inside
    cases inside

theorem not_writing (notOwner : ¬ th.Owner) (grabs : th.pc.grabs = false) : ¬ th.Writing := by
  rintro (owner | inside)
  · exact notOwner owner
  · rw [grabs] at inside
    cases inside

end RwThread

namespace RwMachine.Ok

section

variable (ok : m.Ok) (same : SameSect m.sect sect') (now : (m.thread me).pc = pc)
  (role : SameRole pc pc') (thread : RwThread.Ok { m.thread me with pc := pc' })

include ok same now role thread

/-- Another place, with the same members and the same entries. -/
theorem move (reads : pc'.reads = true → pc.reads = true ∨ dirWrite m.sect.u64State = false)
    (grabs : pc'.grabs = true → pc.grabs = true ∨ dirWrite m.sect.u64State = true) :
    Change m me sect' { m.thread me with pc := pc' } := by
  subst now
  have owner : RwThread.Owner { m.thread me with pc := pc' } ↔ (m.thread me).Owner := by
    simp only [RwThread.Owner, role.owns]
  constructor
  · exact thread
  · rw [same.u64State]
    simp only [RwThread.rd, role.rd]
  · rw [same.u64State]
    simp only [RwThread.wr, role.wr]
  · rw [same.u64State]
    simp only [role.wait]
  · rw [same.hNativeWriter, owner]
    exact ok.owner me
  · intro t _
    rw [same.hNativeWriter]
  · intro write
    rw [same.u64State] at write
    refine ⟨?_, fun t _ => ok.reading write t⟩
    rintro (held | inside)
    · exact ok.reading write me (.inl held)
    · rcases reads inside with before | read
      · exact ok.reading write me (.inr before)
      · rw [write] at read
        cases read
  · intro read
    rw [same.u64State] at read
    refine ⟨?_, fun t _ => ok.writing read t⟩
    rintro (held | inside)
    · exact ok.writing read me (.inl (owner.mp held))
    · rcases grabs inside with before | write
      · exact ok.writing read me (.inr before)
      · rw [read] at write
        cases write
  · intro held
    rw [same.cWriterReads]
    exact ok.reads me (owner.mp held)
  · intro none
    rw [same.hNativeWriter] at none
    rw [same.cWriterReads]
    exact ok.noReads none
  · intro some
    rw [same.cWriteRecursions]
    exact ok.recursions me some
  · intro t _ _
    exact ⟨same.cWriterReads, same.cWriteRecursions⟩
  · rw [same.cWriterReads, same.cWriteRecursions]
    exact ok.small

/-- Another place that is not behind a check of the direction. -/
theorem pass (reads : pc'.reads = false) (grabs : pc'.grabs = false) :
    Change m me sect' { m.thread me with pc := pc' } := by
  refine ok.move same now role thread (fun inside => ?_) fun inside => ?_
  · rw [reads] at inside
    cases inside
  · rw [grabs] at inside
    cases inside

end

/-- While a thread is in exclusively the direction is to write. -/
theorem dir_of_owner (ok : m.Ok) (owner : (m.thread me).Owner) :
    dirWrite m.sect.u64State = true := by
  by_contra read
  exact ok.writing (by simpa using read) me (.inl owner)

theorem dir_of_reading (ok : m.Ok) (reading : (m.thread me).Reading) :
    dirWrite m.sect.u64State = false := by
  by_contra write
  exact ok.reading (by simpa using write) me reading

theorem owner_unique (ok : m.Ok) {t u : ι} (first : (m.thread t).Owner)
    (second : (m.thread u).Owner) : t = u := by
  have writer := (ok.owner t).mpr first
  rw [(ok.owner u).mpr second] at writer
  exact (some.inj writer).symm

/-- A new state word; nobody else is inside in the new direction. -/
theorem newWord (ok : m.Ok) {new rd wr wait : Nat} {write : Bool}
    (fields : Fields new rd wr write wait) (thread : th'.Ok)
    (sumRd : rd + (m.thread me).rd = cntRd m.sect.u64State + th'.rd)
    (sumWr : wr + (m.thread me).wr = cntWr m.sect.u64State + th'.wr)
    (sumWait : wait + (m.thread me).pc.wait = waitCntRd m.sect.u64State + th'.pc.wait)
    (owner : th'.Owner ↔ (m.thread me).Owner)
    (entered : (m.thread me).Owner → th'.cShared = (m.thread me).cShared ∧
      th'.cExcl = (m.thread me).cExcl) (reading : write = true →
      ¬ th'.Reading ∧ ∀ t, t ≠ me → ¬ (m.thread t).Reading) (writing : write = false →
      ¬ th'.Writing ∧ ∀ t, t ≠ me → ¬ (m.thread t).Writing) :
    Change m me { m.sect with u64State := new } th' := by
  constructor
  · exact thread
  · rw [fields.rd]
    exact sumRd
  · rw [fields.wr]
    exact sumWr
  · rw [fields.wait]
    exact sumWait
  · rw [owner]
    exact ok.owner me
  · intro t _
    exact Iff.rfl
  · rw [fields.dir]
    exact reading
  · rw [fields.dir]
    exact writing
  · intro held
    rw [(entered (owner.mp held)).1]
    exact ok.reads me (owner.mp held)
  · exact ok.noReads
  · intro some
    have inside := owner.mp (.inl some)
    rw [(entered inside).2] at some ⊢
    exact ok.recursions me some
  · intro t _ _
    exact ⟨rfl, rfl⟩
  · exact ok.small

/-- Nobody else is counted as a reader. -/
theorem others_reading [DecidableEq ι] (ok : m.Ok) (all : cntRd m.sect.u64State ≤ (m.thread me).rd) (t : ι)
    (other : t ≠ me) : ¬ (m.thread t).Reading := by
  intro reading
  rw [ok.rd] at all
  exact reading.counted (eq_zero_of_sum_le RwThread.rd all other)

theorem others_writing [DecidableEq ι] (ok : m.Ok) (all : cntWr m.sect.u64State ≤ (m.thread me).wr) (t : ι)
    (other : t ≠ me) : ¬ (m.thread t).Writing := by
  intro writing
  rw [ok.wr] at all
  exact writing.counted (eq_zero_of_sum_le RwThread.wr all other)

theorem rd_le (ok : m.Ok) : (m.thread me).rd ≤ cntRd m.sect.u64State := by
  rw [ok.rd]
  exact le_sum RwThread.rd me

theorem wr_le (ok : m.Ok) : (m.thread me).wr ≤ cntWr m.sect.u64State := by
  rw [ok.wr]
  exact le_sum RwThread.wr me

theorem wait_le (ok : m.Ok) : (m.thread me).pc.wait ≤ waitCntRd m.sect.u64State := by
  rw [ok.wait]
  exact le_sum (fun th : RwThread => th.pc.wait) me

theorem waitCntRd_le (ok : m.Ok) : waitCntRd m.sect.u64State ≤ cntRd m.sect.u64State := by
  rw [ok.wait, ok.rd]
  exact Finset.sum_le_sum fun t _ => RwThread.wait_le_rd

end RwMachine.Ok

omit [Fintype ι] in
theorem casState_cases {s : CritSectRw ι} {th : RwThread} {old new : Nat}
    {swapped result : CritSectRw ι × RwThread} {failed : RwPc}
    (cas : casState s th old new swapped failed = result) :
    s.u64State = old ∧ result = ({ swapped.1 with u64State := new }, swapped.2) ∨
      result = (s, { th with pc := failed }) := by
  rw [casState] at cas
  split at cas
  case isTrue same => exact .inl ⟨same, cas.symm⟩
  case isFalse => exact .inr cas.symm

/-! ### The compare and swaps -/

theorem sharedLoop_change {fTryOnly : Bool} {old : Nat} [DecidableEq ι] (ok : m.Ok)
    (now : (m.thread me).pc = .sharedLoop fTryOnly old) (room : (m.thread me).pc.Room m.sect)
    (step : sharedLoop me m.sect (m.thread me) fTryOnly old = (sect', th')) :
    Change m me sect' th' := by
  have again : Change m me m.sect { m.thread me with pc := .sharedRead fTryOnly } :=
    ok.pass (.refl _) now ⟨rfl, rfl, rfl, rfl⟩ trivial rfl rfl
  have fields := fields_self m.sect.u64State
  rw [now, RwPc.Room] at room
  rw [sharedLoop] at step
  split at step
  case isTrue read =>
    rcases casState_cases step with ⟨same, result⟩ | result
    · cases result
      subst same
      have notOwner : ¬ (m.thread me).Owner := by
        intro owner
        rw [ok.dir_of_owner owner] at read
        cases read
      have none : (m.thread me).cExcl = 0 := by
        by_contra some
        exact notOwner (.inl (Nat.pos_of_ne_zero some))
      have more : cntRd m.sect.u64State < 32767 := room read
      refine ok.newWord (fields.setRd (c := cntRd m.sect.u64State + 1) (by omega)) trivial ?_ ?_ ?_ ?_
        (fun owner => absurd owner notOwner) (fun write => ?_) fun _ => ⟨?_, fun t _ => ?_⟩
      · simp [RwThread.rd, now, RwPc.rd, none]
        omega
      · simp [RwThread.wr, now, RwPc.wr, none]
      · simp [now, RwPc.wait]
      · simp [RwThread.Owner, now, RwPc.owns]
      · rw [read] at write
        cases write
      · rintro (owner | grabs)
        · exact notOwner (owner.imp id fun inside => by cases inside)
        · cases grabs
      · exact ok.writing read t
    · cases result
      exact again
  case isFalse write =>
    split at step
    case isTrue empty =>
      rcases casState_cases step with ⟨same, result⟩ | result
      · cases result
        subst same
        have nobody : (m.thread me).wr = 0 := Nat.eq_zero_of_le_zero (empty.2 ▸ ok.wr_le)
        have noReader : (m.thread me).rd = 0 := Nat.eq_zero_of_le_zero (empty.1 ▸ ok.rd_le)
        have notWriting : ¬ (m.thread me).Writing := fun writing => writing.counted nobody
        have none : (m.thread me).cExcl = 0 := by
          by_contra some
          exact notWriting (.inl (.inl (Nat.pos_of_ne_zero some)))
        have notShared : (m.thread me).cShared = 0 := by
          rw [RwThread.rd, if_pos none] at noReader
          omega
        refine ok.newWord ((fields.setRd (c := 1) (by omega)).setDir) trivial ?_ ?_ ?_ ?_
          (fun owner => absurd (.inl owner) notWriting) (fun read => by cases read)
          fun _ => ⟨?_, fun t other => ?_⟩
        · simp [RwThread.rd, now, RwPc.rd, none, notShared, empty.1]
        · simp [RwThread.wr, now, RwPc.wr, none]
        · simp [now, RwPc.wait]
        · simp [RwThread.Owner, now, RwPc.owns]
        · rintro (owner | grabs)
          · exact notWriting (.inl (owner.imp id fun inside => by cases inside))
          · cases grabs
        · exact ok.others_writing (by omega) t other
      · cases result
        exact again
    case isFalse =>
      split at step
      case isTrue writer =>
        cases step
        have owner := (ok.owner me).mp writer
        have inside : 0 < (m.thread me).cExcl := by
          rcases owner with some | owns
          · exact some
          · rw [now] at owns
            cases owns
        exact ok.pass (.refl _) now ⟨rfl, rfl, rfl, rfl⟩ inside rfl rfl
      case isFalse other =>
        have none : (m.thread me).cExcl = 0 := by
          by_contra some
          exact other ((ok.owner me).mpr (.inl (Nat.pos_of_ne_zero some)))
        split at step
        · cases step
          exact ok.pass (.refl _) now ⟨rfl, rfl, rfl, rfl⟩ trivial rfl rfl
        · cases step
          exact ok.pass (.refl _) now ⟨rfl, rfl, rfl, rfl⟩ none rfl rfl

theorem sharedQueue_change {old : Nat} (ok : m.Ok) (now : (m.thread me).pc = .sharedQueue old)
    (room : (m.thread me).pc.Room m.sect) (step : casState m.sect (m.thread me) old
      (setWaitCntRd (setCntRd old (cntRd old + 1)) (waitCntRd old + 1))
      (m.sect, { m.thread me with pc := .sharedWait }) (.sharedRead false) = (sect', th')) :
    Change m me sect' th' := by
  have thread := ok.thread me
  simp only [RwThread.Ok, now] at thread
  have more : cntRd m.sect.u64State < 32767 := by
    rw [now] at room
    exact room
  have waiting := ok.waitCntRd_le
  rcases casState_cases step with ⟨same, result⟩ | result
  · cases result
    subst same
    have fields := fields_self m.sect.u64State
    have notOwner : ¬ (m.thread me).Owner := RwThread.not_owner thread (by rw [now]; rfl)
    refine ok.newWord ((fields.setRd (c := cntRd m.sect.u64State + 1) (by omega)).setWait
      (c := waitCntRd m.sect.u64State + 1) (by omega)) thread ?_ ?_ ?_ ?_
      (fun owner => absurd owner notOwner) (fun write => ⟨?_, fun t _ => ok.reading write t⟩)
      fun read => ⟨?_, fun t _ => ok.writing read t⟩
    · simp [RwThread.rd, now, RwPc.rd, thread]
      omega
    · simp [RwThread.wr, now, RwPc.wr, thread]
    · simp [now, RwPc.wait]
    · simp [RwThread.Owner, now, RwPc.owns]
    · rintro (held | inside)
      · exact ok.reading write me (.inl held)
      · cases inside
    · exact RwThread.not_writing (RwThread.not_owner thread rfl) rfl
  · cases result
    exact ok.pass (.refl _) now ⟨rfl, rfl, rfl, rfl⟩ trivial rfl rfl

theorem sharedUnwait_change {old : Nat} (ok : m.Ok) (now : (m.thread me).pc = .sharedUnwait old)
    (step : casState m.sect (m.thread me) old (setWaitCntRd old (dec64 (waitCntRd old)))
      (m.sect, if dec64 (waitCntRd old) = 0 then { m.thread me with pc := .sharedReset }
        else { m.thread me with pc := .outside, cShared := (m.thread me).cShared + 1 })
      .sharedUnwaitRead = (sect', th')) :
    Change m me sect' th' := by
  have thread := ok.thread me
  simp only [RwThread.Ok, now] at thread
  have inside : (m.thread me).Reading := .inr (by rw [now]; rfl)
  have read := ok.dir_of_reading inside
  rcases casState_cases step with ⟨same, result⟩ | result
  · subst same
    have waiting : (m.thread me).pc.wait ≤ waitCntRd m.sect.u64State := ok.wait_le
    rw [now] at waiting
    have pos : 0 < waitCntRd m.sect.u64State := waiting
    have small := waitCntRd_lt (u := m.sect.u64State)
    have less := dec64_eq pos (by omega)
    have notOwner : ¬ (m.thread me).Owner := RwThread.not_owner thread (by rw [now]; rfl)
    have fields := (fields_self m.sect.u64State).setWait (c := waitCntRd m.sect.u64State - 1)
      (by omega)
    rw [less] at result
    rw [read] at fields
    have lower : ∀ th'' : RwThread, th''.Ok → th''.rd = (m.thread me).rd → th''.wr = 0 →
        th''.pc.wait = 0 → ¬ th''.Writing →
        Change m me
          { m.sect with
            u64State := setWaitCntRd m.sect.u64State (waitCntRd m.sect.u64State - 1) } th'' := by
      intro th'' thread' rd wr wait writing
      refine ok.newWord fields thread' (by rw [rd]) ?_ ?_ ?_ (fun owner => absurd owner notOwner)
        (fun write => by cases write) fun _ => ⟨writing, fun t _ => ok.writing read t⟩
      · have before : (m.thread me).wr = 0 := by simp [RwThread.wr, now, RwPc.wr, thread]
        rw [before, wr]
      · rw [now, wait]
        show waitCntRd m.sect.u64State - 1 + 1 = waitCntRd m.sect.u64State + 0
        omega
      · exact ⟨fun owner => absurd (.inl owner) writing, fun owner => absurd owner notOwner⟩
    split at result
    · cases result
      refine lower _ thread ?_ ?_ rfl ?_
      · simp [RwThread.rd, now, RwPc.rd]
      · simp [RwThread.wr, RwPc.wr, thread]
      · exact RwThread.not_writing (RwThread.not_owner thread rfl) rfl
    · cases result
      refine lower _ trivial ?_ ?_ rfl ?_
      · simp [RwThread.rd, now, RwPc.rd, thread]
        omega
      · simp [RwThread.wr, RwPc.wr, thread]
      · exact RwThread.not_writing (RwThread.not_owner thread rfl) rfl
  · cases result
    exact ok.move (.refl _) now ⟨rfl, rfl, rfl, rfl⟩ thread (fun _ => .inl rfl)
      fun inside => by cases inside

theorem leaveSharedLoop_change {old : Nat} [DecidableEq ι] (ok : m.Ok)
    (now : (m.thread me).pc = .leaveSharedLoop old)
    (step : leaveSharedLoop m.sect (m.thread me) old = (sect', th')) : Change m me sect' th' := by
  have thread := ok.thread me
  simp only [RwThread.Ok, now] at thread
  obtain ⟨none, held⟩ := thread
  have inside : (m.thread me).Reading := .inl ⟨none, held⟩
  have read := ok.dir_of_reading inside
  have notOwner : ¬ (m.thread me).Owner := RwThread.not_owner none (by rw [now]; rfl)
  have again : Change m me m.sect { m.thread me with pc := .leaveSharedReread } :=
    ok.pass (.refl _) now ⟨rfl, rfl, rfl, rfl⟩ ⟨none, held⟩ rfl rfl
  have counted : (m.thread me).rd = (m.thread me).cShared := by
    simp [RwThread.rd, now, RwPc.rd, none]
  have fields := fields_self m.sect.u64State
  have small := cntRd_lt (u := m.sect.u64State)
  rw [leaveSharedLoop] at step
  split at step
  case isTrue =>
    cases step
    exact ok.pass (.refl _) now ⟨rfl, rfl, rfl, rfl⟩ trivial rfl rfl
  case isFalse some =>
    split at step
    case isTrue =>
      rcases casState_cases step with ⟨same, result⟩ | result
      · cases result
        subst same
        rw [read] at fields
        refine ok.newWord (fields.setRd (c := cntRd m.sect.u64State - 1) (by omega)) trivial
          ?_ ?_ ?_ ?_ (fun owner => absurd owner notOwner) (fun write => by cases write)
          fun _ => ⟨?_, fun t _ => ok.writing read t⟩
        · rw [counted]
          simp [RwThread.rd, RwPc.rd, none]
          omega
        · simp [RwThread.wr, now, RwPc.wr, none]
        · simp [now, RwPc.wait]
        · simp [RwThread.Owner, now, RwPc.owns]
        · exact RwThread.not_writing (RwThread.not_owner none rfl) rfl
      · cases result
        exact again
    case isFalse last =>
      rcases casState_cases step with ⟨same, result⟩ | result
      · cases result
        subst same
        have all : (m.thread me).rd ≤ cntRd m.sect.u64State := ok.rd_le
        have one : cntRd m.sect.u64State = 1 := by omega
        have single : (m.thread me).cShared = 1 := by omega
        refine ok.newWord ((fields.setRd (c := 0) (by omega)).setDir) none ?_ ?_ ?_ ?_
          (fun owner => absurd owner notOwner)
          (fun _ => ⟨?_, fun t other => ok.others_reading (by omega) t other⟩)
          fun read => by cases read
        · rw [counted]
          simp [RwThread.rd, RwPc.rd, none, single, one]
        · simp [RwThread.wr, now, RwPc.wr, none]
        · simp [now, RwPc.wait]
        · simp [RwThread.Owner, now, RwPc.owns]
        · rintro (⟨-, more⟩ | inside)
          · rw [single] at more
            exact Nat.lt_irrefl 0 more
          · cases inside
      · cases result
        exact again

/-- A writer that is counted in the direction to write may grab the handle. -/
theorem exclCounted_spec (fTryOnly : Bool) (new : Nat) :
    (exclCounted fTryOnly new).wr = 1 ∧ (exclCounted fTryOnly new).rd = 0 ∧
      (exclCounted fTryOnly new).wait = 0 ∧ (exclCounted fTryOnly new).owns = false ∧
      (exclCounted fTryOnly new).reads = false ∧
      ((exclCounted fTryOnly new).grabs = true → dirWrite new = true) ∧
      ∀ th : RwThread, th.cExcl = 0 ∧ th.cShared = 0 →
        RwThread.Ok { th with pc := exclCounted fTryOnly new } := by
  rw [exclCounted]
  split
  case isTrue write => exact ⟨rfl, rfl, rfl, rfl, rfl, fun _ => write.1, fun _ none => none⟩
  case isFalse =>
    split
    · exact ⟨rfl, rfl, rfl, rfl, rfl, fun grabs => (by cases grabs), fun _ none => none⟩
    · exact ⟨rfl, rfl, rfl, rfl, rfl, fun grabs => (by cases grabs), fun _ none => none⟩

theorem exclLoop_change {fTryOnly : Bool} {old : Nat} [DecidableEq ι] (ok : m.Ok)
    (now : (m.thread me).pc = .exclLoop fTryOnly old) (room : (m.thread me).pc.Room m.sect)
    (step : exclLoop m.sect (m.thread me) fTryOnly old = (sect', th')) : Change m me sect' th' := by
  have thread := ok.thread me
  simp only [RwThread.Ok, now] at thread
  obtain ⟨none, free⟩ := thread
  have more : cntWr m.sect.u64State < 32767 := by
    rw [now] at room
    exact room
  have notOwner : ¬ (m.thread me).Owner := by
    rintro (some | owns)
    · omega
    · rw [now] at owns
      cases owns
  have ownRd : (m.thread me).rd = 0 := by simp [RwThread.rd, now, RwPc.rd, free]
  have ownWr : (m.thread me).wr = 0 := by simp [RwThread.wr, now, RwPc.wr, none]
  have again : Change m me m.sect { m.thread me with pc := .exclRead fTryOnly } :=
    ok.pass (.refl _) now ⟨rfl, rfl, rfl, rfl⟩ ⟨none, free⟩ rfl rfl
  have fields := fields_self m.sect.u64State
  -- both ways of being counted lead on to the same places
  have counted : ∀ {new write}, Fields new (cntRd m.sect.u64State) (cntWr m.sect.u64State + 1)
      write (waitCntRd m.sect.u64State) →
      (write = true → ∀ t, t ≠ me → ¬ (m.thread t).Reading) →
      (write = false → ∀ t, t ≠ me → ¬ (m.thread t).Writing) →
      Change m me { m.sect with u64State := new }
        { m.thread me with pc := exclCounted fTryOnly new } := by
    intro new write fields' reading writing
    obtain ⟨wr, rd, wait, owns, reads, grabs, okay⟩ := exclCounted_spec fTryOnly new
    refine ok.newWord fields' (okay _ ⟨none, free⟩) ?_ ?_ ?_ ?_ (fun owner => absurd owner notOwner)
      (fun isWrite => ⟨?_, reading isWrite⟩) fun isRead => ⟨?_, writing isRead⟩
    · rw [ownRd]
      simp only [RwThread.rd, rd, none, free, if_true]
    · rw [ownWr]
      simp only [RwThread.wr, wr, none, if_true]
    · rw [now, wait]
      rfl
    · exact ⟨fun owner => absurd owner (RwThread.not_owner none owns),
        fun owner => absurd owner notOwner⟩
    · exact RwThread.not_reading free reads
    · rintro ((some | inside) | grabbing)
      · exact notOwner (.inl some)
      · rw [owns] at inside
        cases inside
      · have write := grabs grabbing
        rw [fields'.dir, isRead] at write
        cases write
  rw [exclLoop] at step
  split at step
  case isTrue =>
    rcases casState_cases step with ⟨same, result⟩ | result
    · cases result
      subst same
      exact counted (fields.setWr (by omega)) (fun write t _ => ok.reading write t)
        fun read t _ => ok.writing read t
    · cases result
      exact again
  case isFalse alone =>
    rcases casState_cases step with ⟨same, result⟩ | result
    · cases result
      subst same
      simp only [not_or, not_not] at alone
      obtain ⟨-, noReader, noWriter⟩ := alone
      have made : Fields (setDir (setCntWr m.sect.u64State 1) true) (cntRd m.sect.u64State)
          (cntWr m.sect.u64State + 1) true (waitCntRd m.sect.u64State) := by
        rw [noWriter]
        exact (fields.setWr (c := 1) (by omega)).setDir
      exact counted made (fun _ t other => ok.others_reading (by omega) t other)
        fun read => by cases read
    · cases result
      exact again

theorem exclWithdraw_change {old : Nat} (ok : m.Ok) (now : (m.thread me).pc = .exclWithdraw old)
    (step : casState m.sect (m.thread me) old (setCntWr old (dec64 (cntWr old)))
      (m.sect, { m.thread me with pc := .outside }) .exclWithdrawRead = (sect', th')) :
    Change m me sect' th' := by
  have thread := ok.thread me
  simp only [RwThread.Ok, now] at thread
  obtain ⟨none, free⟩ := thread
  have notOwner : ¬ (m.thread me).Owner := RwThread.not_owner none (by rw [now]; rfl)
  rcases casState_cases step with ⟨same, result⟩ | result
  · cases result
    subst same
    have counted : (m.thread me).wr = 1 := by simp [RwThread.wr, now, RwPc.wr, none]
    have pos : (m.thread me).wr ≤ cntWr m.sect.u64State := ok.wr_le
    have small := cntWr_lt (u := m.sect.u64State)
    rw [dec64_eq (by omega) (by omega)]
    have fields := (fields_self m.sect.u64State).setWr (c := cntWr m.sect.u64State - 1) (by omega)
    refine ok.newWord fields trivial ?_ ?_ ?_ ?_ (fun owner => absurd owner notOwner)
      (fun write => ⟨?_, fun t _ => ok.reading write t⟩)
      fun read => ⟨?_, fun t _ => ok.writing read t⟩
    · simp [RwThread.rd, now, RwPc.rd]
    · rw [counted]
      simp [RwThread.wr, RwPc.wr, none]
      omega
    · simp [now, RwPc.wait]
    · simp [RwThread.Owner, now, RwPc.owns]
    · exact RwThread.not_reading free rfl
    · exact RwThread.not_writing (RwThread.not_owner none rfl) rfl
  · cases result
    exact ok.pass (.refl _) now ⟨rfl, rfl, rfl, rfl⟩ ⟨none, free⟩ rfl rfl

theorem leaveExclLoop_change {old : Nat} [DecidableEq ι] (ok : m.Ok)
    (now : (m.thread me).pc = .leaveExclLoop old)
    (step : leaveExclLoop m.sect (m.thread me) old = (sect', th')) : Change m me sect' th' := by
  have thread := ok.thread me
  simp only [RwThread.Ok, now] at thread
  obtain ⟨none, free⟩ := thread
  have notOwner : ¬ (m.thread me).Owner := RwThread.not_owner none (by rw [now]; rfl)
  have again : Change m me m.sect { m.thread me with pc := .leaveExclRead } :=
    ok.pass (.refl _) now ⟨rfl, rfl, rfl, rfl⟩ ⟨none, free⟩ rfl rfl
  have ownRd : (m.thread me).rd = 0 := by simp [RwThread.rd, now, RwPc.rd, free]
  have counted : (m.thread me).wr = 1 := by simp [RwThread.wr, now, RwPc.wr, none]
  have pos : (m.thread me).wr ≤ cntWr m.sect.u64State := ok.wr_le
  have small := cntWr_lt (u := m.sect.u64State)
  have less : dec64 (cntWr m.sect.u64State) = cntWr m.sect.u64State - 1 :=
    dec64_eq (by omega) (by omega)
  have fields := fields_self m.sect.u64State
  -- the places the loop ends at count as outside
  have left : ∀ {new wr write pc'}, Fields new (cntRd m.sect.u64State) wr write
        (waitCntRd m.sect.u64State) → wr + 1 = cntWr m.sect.u64State →
      RwThread.Ok { m.thread me with pc := pc' } → pc'.rd = 0 → pc'.wr = 0 → pc'.wait = 0 →
      pc'.owns = false → pc'.reads = false → pc'.grabs = false →
      (write = true → dirWrite m.sect.u64State = true) →
      (write = false → ∀ t, t ≠ me → ¬ (m.thread t).Writing) →
      Change m me { m.sect with u64State := new } { m.thread me with pc := pc' } := by
    intro new wr write pc' fields' one okay rd' wr' wait' owns' reads' grabs' reading writing
    refine ok.newWord fields' okay ?_ ?_ ?_ ?_ (fun owner => absurd owner notOwner)
      (fun isWrite => ⟨?_, fun t _ => ok.reading (reading isWrite) t⟩)
      fun isRead => ⟨?_, writing isRead⟩
    · rw [ownRd]
      simp only [RwThread.rd, rd', none, free, if_true]
    · rw [counted]
      simp only [RwThread.wr, none, wr', one, if_true, Nat.add_zero]
    · rw [now, wait']
      rfl
    · exact ⟨fun owner => absurd owner (RwThread.not_owner none owns'),
        fun owner => absurd owner notOwner⟩
    · exact RwThread.not_reading free reads'
    · exact RwThread.not_writing (RwThread.not_owner none owns') grabs'
  rw [leaveExclLoop] at step
  split at step
  case isTrue =>
    rcases casState_cases step with ⟨same, result⟩ | result
    · cases result
      subst same
      rw [less]
      have made := fields.setWr (c := cntWr m.sect.u64State - 1) (by omega)
      have stays : dirWrite m.sect.u64State = false → ∀ t, t ≠ me → ¬ (m.thread t).Writing :=
        fun read t _ => ok.writing read t
      split
      · exact left made (by omega) none rfl rfl rfl rfl rfl rfl id stays
      · exact left made (by omega) trivial rfl rfl rfl rfl rfl rfl id stays
    · cases result
      exact again
  case isFalse last =>
    rcases casState_cases step with ⟨same, result⟩ | result
    · cases result
      subst same
      have made : Fields (setDir (setCntWr m.sect.u64State 0) false) _ _ _ _ :=
        (fields.setWr (c := 0) (by omega)).setDir
      rw [less] at last
      exact left made (by omega) none rfl rfl rfl rfl rfl rfl (fun write => by cases write)
        fun _ t other => ok.others_writing (by omega) t other
    · cases result
      exact again

theorem grabHandle_change {failed : RwPc} (ok : m.Ok) (now : (m.thread me).pc = pc)
    (grabs : pc.grabs = true) (wr : pc.wr = 1) (role : SameRole pc failed)
    (notOwns : pc.owns = false) (rd : pc.rd = 0) (reads : failed.reads = false)
    (notGrabs : failed.grabs = false) (thread : (m.thread me).cExcl = 0 ∧ (m.thread me).cShared = 0)
    (okay : RwThread.Ok { m.thread me with pc := failed }) [DecidableEq ι]
    (step : grabHandle me m.sect (m.thread me) failed = (sect', th')) :
    Change m me sect' th' := by
  obtain ⟨none, free⟩ := thread
  rw [grabHandle] at step
  split at step
  case h_1 nobody =>
    cases step
    have write : dirWrite m.sect.u64State = true := by
      by_contra read
      exact ok.writing (by simpa using read) me (.inr (by rw [now]; exact grabs))
    have wait : pc.wait = 0 := by
      cases pc <;> simp [RwPc.grabs] at grabs <;> rfl
    constructor
    · exact ⟨none, free⟩
    · simp only [RwThread.rd, now, rd]
      rfl
    · simp only [RwThread.wr, now, wr]
      rfl
    · rw [now, wait]
      rfl
    · exact ⟨fun _ => .inr rfl, fun _ => rfl⟩
    · intro t other
      rw [nobody]
      exact ⟨fun same => absurd (some.inj same).symm other, fun same => by cases same⟩
    · intro _
      refine ⟨?_, fun t _ => ok.reading write t⟩
      rintro (⟨-, some⟩ | inside)
      · exact Nat.lt_irrefl 0 (free ▸ some)
      · cases inside
    · intro read
      rw [show dirWrite m.sect.u64State = false from read] at write
      cases write
    · intro _
      rw [free]
      exact ok.noReads nobody
    · intro same
      cases same
    · intro some
      exact absurd none (Nat.ne_of_gt some)
    · intro t _ writer
      rw [nobody] at writer
      cases writer
    · exact ok.small
  case h_2 =>
    cases step
    exact ok.pass (.refl _) now role okay reads notGrabs

/-! ### Recursions, and the ways in and out -/

theorem rd_outside : RwPc.rd .outside = 0 := rfl

theorem wr_outside : RwPc.wr .outside = 0 := rfl

/-- The writer changes one of its recursion counts. -/
theorem recurse_change (ok : m.Ok) (some : 0 < (m.thread me).cExcl) (rd : (m.thread me).pc.rd = 0)
    (wait : (m.thread me).pc.wait = 0) (word : sect'.u64State = m.sect.u64State)
    (writer : sect'.hNativeWriter = m.sect.hNativeWriter) (after : th'.pc = .outside)
    (still : 0 < th'.cExcl) (reads : sect'.cWriterReads = th'.cShared)
    (recursions : sect'.cWriteRecursions = th'.cExcl)
    (small : sect'.cWriterReads < 2 ^ 32 ∧ sect'.cWriteRecursions < 2 ^ 32) :
    Change m me sect' th' := by
  have owner : (m.thread me).Owner := .inl some
  have write := ok.dir_of_owner owner
  constructor
  · rw [RwThread.Ok, after]
    trivial
  · rw [word]
    simp [RwThread.rd, after, rd, rd_outside, Nat.ne_of_gt some, Nat.ne_of_gt still]
  · rw [word]
    simp [RwThread.wr, Nat.ne_of_gt some, Nat.ne_of_gt still]
  · rw [word, wait, after]
    rfl
  · rw [writer]
    exact ⟨fun _ => .inl still, fun _ => (ok.owner me).mpr owner⟩
  · intro t _
    rw [writer]
  · intro _
    refine ⟨?_, fun t _ => ok.reading write t⟩
    rintro (⟨none, -⟩ | inside)
    · omega
    · rw [after] at inside
      cases inside
  · intro read
    rw [word, write] at read
    cases read
  · exact fun _ => reads
  · intro none
    rw [writer, (ok.owner me).mpr owner] at none
    cases none
  · exact fun _ => recursions
  · intro t other writer'
    exact absurd (ok.owner_unique ((ok.owner t).mp writer') owner) other
  · exact small

/-- A reader that was let in returns. -/
theorem letIn_change (ok : m.Ok) (same : SameSect m.sect sect') (rd : (m.thread me).pc.rd = 1)
    (wait : (m.thread me).pc.wait = 0) (reads : (m.thread me).pc.reads = true)
    (none : (m.thread me).cExcl = 0) :
    Change m me sect' { m.thread me with
      pc := .outside, cShared := (m.thread me).cShared + 1 } := by
  have inside : (m.thread me).Reading := .inr reads
  have read := ok.dir_of_reading inside
  have unowned : ¬ RwThread.Owner { m.thread me with
      pc := .outside, cShared := (m.thread me).cShared + 1 } := RwThread.not_owner none rfl
  have notOwner : ¬ (m.thread me).Owner := fun owner => ok.writing read me (.inl owner)
  have notWr : (m.thread me).pc.wr = 0 := by
    cases now : (m.thread me).pc <;> rw [now] at reads <;> simp [RwPc.reads] at reads <;> rfl
  constructor
  · trivial
  · rw [same.u64State]
    simp only [RwThread.rd, rd, none, rd_outside, if_true]
    omega
  · rw [same.u64State]
    simp only [RwThread.wr, none, wr_outside, notWr, if_true]
  · rw [same.u64State, wait]
    rfl
  · rw [same.hNativeWriter, ok.owner me]
    exact ⟨fun owner => absurd owner notOwner, fun owner => absurd owner unowned⟩
  · intro t _
    rw [same.hNativeWriter]
  · intro write
    rw [same.u64State, read] at write
    cases write
  · intro _
    refine ⟨?_, fun t _ => ok.writing read t⟩
    rintro (owner | grabs)
    · exact unowned owner
    · cases grabs
  · exact fun owner => absurd owner unowned
  · intro nobody
    rw [same.hNativeWriter] at nobody
    rw [same.cWriterReads]
    exact ok.noReads nobody
  · exact fun some => absurd none (Nat.ne_of_gt some)
  · intro t _ _
    exact ⟨same.cWriterReads, same.cWriteRecursions⟩
  · rw [same.cWriterReads, same.cWriteRecursions]
    exact ok.small

theorem exclGot_change (ok : m.Ok) (now : (m.thread me).pc = .exclGot) :
    Change m me { m.sect with cWriteRecursions := 1 }
      { m.thread me with pc := .outside, cExcl := 1 } := by
  have thread := ok.thread me
  simp only [RwThread.Ok, now] at thread
  obtain ⟨none, free⟩ := thread
  have owner : (m.thread me).Owner := .inr (by rw [now]; rfl)
  have write := ok.dir_of_owner owner
  constructor
  · trivial
  · simp [RwThread.rd, now, RwPc.rd, free]
  · simp [RwThread.wr, now, RwPc.wr, none]
  · simp [now, RwPc.wait]
  · exact ⟨fun _ => .inl Nat.one_pos, fun _ => (ok.owner me).mpr owner⟩
  · exact fun _ _ => Iff.rfl
  · intro _
    refine ⟨?_, fun t _ => ok.reading write t⟩
    rintro (⟨zero, -⟩ | inside)
    · cases zero
    · cases inside
  · intro read
    rw [show dirWrite m.sect.u64State = false from read] at write
    cases write
  · exact fun _ => ok.reads me owner
  · intro nobody
    exact ok.noReads nobody
  · exact fun _ => rfl
  · intro t other writer
    exact absurd (ok.owner_unique ((ok.owner t).mp writer) owner) other
  · exact ⟨ok.small.1, Nat.one_lt_two_pow (by decide)⟩

/-- The writer goes for its last leave. -/
theorem lastLeave_change (ok : m.Ok) (now : (m.thread me).pc = .leaveExclReads)
    (unread : m.sect.cWriterReads = 0) :
    Change m me m.sect { m.thread me with
      pc := .leaveExclClear, cExcl := (m.thread me).cExcl - 1 } := by
  have one := ok.thread me
  simp only [RwThread.Ok, now] at one
  have owner : (m.thread me).Owner := .inl (by omega)
  have write := ok.dir_of_owner owner
  have free : (m.thread me).cShared = 0 := (ok.reads me owner).symm.trans unread
  constructor
  · exact ⟨by rw [one], free⟩
  · simp [RwThread.rd, now, RwPc.rd, free]
  · simp [RwThread.wr, RwPc.wr, one]
  · simp [now, RwPc.wait]
  · exact ⟨fun _ => .inr rfl, fun _ => (ok.owner me).mpr owner⟩
  · exact fun _ _ => Iff.rfl
  · intro _
    exact ⟨RwThread.not_reading free rfl, fun t _ => ok.reading write t⟩
  · intro read
    rw [write] at read
    cases read
  · exact fun _ => ok.reads me owner
  · exact ok.noReads
  · intro some
    rw [one] at some
    cases some
  · exact fun _ _ _ => ⟨rfl, rfl⟩
  · exact ok.small

theorem leaveExclClear_change (ok : m.Ok) (now : (m.thread me).pc = .leaveExclClear) :
    Change m me { m.sect with cWriteRecursions := 0 } { m.thread me with pc := .leaveExclDisown } := by
  have thread := ok.thread me
  simp only [RwThread.Ok, now] at thread
  have owner : (m.thread me).Owner := .inr (by rw [now]; rfl)
  have change := ok.pass (.refl _) now ⟨rfl, rfl, rfl, rfl⟩
    (show RwThread.Ok { m.thread me with pc := .leaveExclDisown } from thread) rfl rfl
  refine { change with
    recursions := fun some => ?_
    kept := fun t other writer => ?_
    small := ⟨ok.small.1, Nat.two_pow_pos 32⟩ }
  · exact absurd thread.1 (Nat.ne_of_gt some)
  · exact absurd (ok.owner_unique ((ok.owner t).mp writer) owner) other

theorem leaveExclDisown_change (ok : m.Ok) (now : (m.thread me).pc = .leaveExclDisown) :
    Change m me { m.sect with hNativeWriter := none } { m.thread me with pc := .leaveExclRead } := by
  have thread := ok.thread me
  simp only [RwThread.Ok, now] at thread
  obtain ⟨none, free⟩ := thread
  have owner : (m.thread me).Owner := .inr (by rw [now]; rfl)
  have write := ok.dir_of_owner owner
  have unowned : ¬ RwThread.Owner { m.thread me with pc := .leaveExclRead } := RwThread.not_owner none rfl
  constructor
  · exact ⟨none, free⟩
  · simp [RwThread.rd, now, RwPc.rd]
  · simp [RwThread.wr, now, RwPc.wr]
  · simp [now, RwPc.wait]
  · exact ⟨fun same => (by cases same), fun owner => absurd owner unowned⟩
  · intro t other
    refine ⟨fun same => (by cases same), fun same => ?_⟩
    exact absurd (ok.owner_unique ((ok.owner t).mp same) owner) other
  · intro _
    exact ⟨RwThread.not_reading free rfl, fun t _ => ok.reading write t⟩
  · intro read
    rw [show dirWrite m.sect.u64State = false from read] at write
    cases write
  · exact fun owner => absurd owner unowned
  · intro _
    exact (ok.reads me owner).trans free
  · exact fun some => absurd none (Nat.ne_of_gt some)
  · exact fun _ _ _ => ⟨rfl, rfl⟩
  · exact ok.small

/-! ### Every step -/

variable [DecidableEq ι]

theorem threadStep_change (ok : m.Ok) (room : (m.thread me).pc.Room m.sect)
    (step : threadStep me m.sect (m.thread me) = some (sect', th')) : Change m me sect' th' := by
  have thread := ok.thread me
  have same := SameSect.refl m.sect
  have unowned : (m.thread me).cExcl = 0 → (m.thread me).pc.owns = false →
      m.sect.hNativeWriter ≠ some me := by
    intro none owns writer
    rcases (ok.owner me).mp writer with some | inside
    · exact absurd none (Nat.ne_of_gt some)
    · rw [owns] at inside
      cases inside
  have writer : 0 < (m.thread me).cExcl → m.sect.hNativeWriter = some me :=
    fun some => (ok.owner me).mpr (.inl some)
  cases now : (m.thread me).pc with
    simp only [RwThread.Ok, threadStep, now, some.injEq, Prod.mk.injEq] at thread step
  | outside => cases step
  | sharedRead fTryOnly =>
    obtain ⟨rfl, rfl⟩ := step
    exact ok.pass same now ⟨rfl, rfl, rfl, rfl⟩ trivial rfl rfl
  | sharedLoop fTryOnly old =>
    exact sharedLoop_change ok now room step
  | sharedRecurse =>
    obtain ⟨rfl, rfl⟩ := step
    rw [now] at room
    have reads := ok.reads me (.inl thread)
    refine recurse_change ok thread (by rw [now]; rfl) (by rw [now]; rfl) rfl rfl rfl thread ?_
      (ok.recursions me thread) ⟨Nat.mod_lt _ (Nat.two_pow_pos 32), ok.small.2⟩
    dsimp only
    rw [inc32_eq room, reads]
  | sharedQueue old =>
    exact sharedQueue_change ok now room step
  | sharedWait =>
    split at step
    · cases step
      exact ok.pass same now ⟨rfl, rfl, rfl, rfl⟩ thread rfl rfl
    · cases step
  | sharedAwake =>
    obtain ⟨rfl, rfl⟩ := step
    split
    case isTrue read =>
      exact ok.move same now ⟨rfl, rfl, rfl, rfl⟩ thread (fun _ => .inr read)
        fun inside => by cases inside
    case isFalse => exact ok.pass same now ⟨rfl, rfl, rfl, rfl⟩ thread rfl rfl
  | sharedUnwait old =>
    exact sharedUnwait_change ok now step
  | sharedUnwaitRead =>
    obtain ⟨rfl, rfl⟩ := step
    exact ok.move same now ⟨rfl, rfl, rfl, rfl⟩ thread (fun _ => .inl rfl)
      fun inside => by cases inside
  | sharedReset =>
    obtain ⟨rfl, rfl⟩ := step
    split
    · exact ok.move ⟨rfl, rfl, rfl, rfl⟩ now ⟨rfl, rfl, rfl, rfl⟩ thread (fun _ => .inl rfl)
        fun inside => by cases inside
    · exact letIn_change ok ⟨rfl, rfl, rfl, rfl⟩ (by rw [now]; rfl) (by rw [now]; rfl)
        (by rw [now]; rfl) thread
  | sharedResetEvent =>
    obtain ⟨rfl, rfl⟩ := step
    exact letIn_change ok ⟨rfl, rfl, rfl, rfl⟩ (by rw [now]; rfl) (by rw [now]; rfl)
      (by rw [now]; rfl) thread
  | leaveSharedRead =>
    obtain ⟨rfl, rfl⟩ := step
    split
    case isTrue read =>
      have none : (m.thread me).cExcl = 0 := by
        by_contra some
        rw [ok.dir_of_owner (.inl (Nat.pos_of_ne_zero some))] at read
        cases read
      exact ok.pass same now ⟨rfl, rfl, rfl, rfl⟩ ⟨none, thread⟩ rfl rfl
    case isFalse write =>
      have some : 0 < (m.thread me).cExcl := by
        by_contra none
        exact write (ok.dir_of_reading (.inl ⟨Nat.eq_zero_of_not_pos none, thread⟩))
      exact ok.pass same now ⟨rfl, rfl, rfl, rfl⟩ ⟨some, thread⟩ rfl rfl
  | leaveSharedLoop old =>
    exact leaveSharedLoop_change ok now step
  | leaveSharedReread =>
    obtain ⟨rfl, rfl⟩ := step
    exact ok.pass same now ⟨rfl, rfl, rfl, rfl⟩ thread rfl rfl
  | leaveSharedSignal =>
    obtain ⟨rfl, rfl⟩ := step
    exact ok.pass ⟨rfl, rfl, rfl, rfl⟩ now ⟨rfl, rfl, rfl, rfl⟩ trivial rfl rfl
  | leaveSharedOwner =>
    simp only [writer thread.1, if_true] at step
    obtain ⟨rfl, rfl⟩ := step
    exact ok.pass same now ⟨rfl, rfl, rfl, rfl⟩ thread rfl rfl
  | leaveSharedReads =>
    obtain ⟨rfl, rfl⟩ := step
    split
    · exact ok.pass same now ⟨rfl, rfl, rfl, rfl⟩ thread rfl rfl
    · exact ok.pass same now ⟨rfl, rfl, rfl, rfl⟩ trivial rfl rfl
  | leaveSharedUnwind =>
    obtain ⟨inside, held⟩ := thread
    obtain ⟨rfl, rfl⟩ := step
    have reads := ok.reads me (.inl inside)
    refine recurse_change ok inside (by rw [now]; rfl) (by rw [now]; rfl) rfl rfl rfl inside ?_
      (ok.recursions me inside) ⟨Nat.mod_lt _ (Nat.two_pow_pos 32), ok.small.2⟩
    dsimp only
    rw [dec32_eq (reads ▸ held) ok.small.1, reads]
  | exclOwner fTryOnly =>
    obtain ⟨rfl, rfl⟩ := step
    split
    case isTrue writer =>
      have some : 0 < (m.thread me).cExcl := by
        by_contra none
        exact unowned (Nat.eq_zero_of_not_pos none) (by rw [now]; rfl) writer
      exact ok.pass same now ⟨rfl, rfl, rfl, rfl⟩ some rfl rfl
    case isFalse other =>
      have none : (m.thread me).cExcl = 0 := by
        by_contra some
        exact other (writer (Nat.pos_of_ne_zero some))
      exact ok.pass same now ⟨rfl, rfl, rfl, rfl⟩
        ⟨none, thread.resolve_right fun some => Nat.ne_of_gt some none⟩ rfl rfl
  | exclRecurse =>
    obtain ⟨rfl, rfl⟩ := step
    rw [now] at room
    refine recurse_change ok thread (by rw [now]; rfl) (by rw [now]; rfl) rfl rfl rfl
      (Nat.succ_pos _) (ok.reads me (.inl thread)) ?_
      ⟨ok.small.1, Nat.mod_lt _ (Nat.two_pow_pos 32)⟩
    dsimp only
    rw [inc32_eq room, ok.recursions me thread]
  | exclRead fTryOnly =>
    obtain ⟨rfl, rfl⟩ := step
    exact ok.pass same now ⟨rfl, rfl, rfl, rfl⟩ thread rfl rfl
  | exclLoop fTryOnly old =>
    exact exclLoop_change ok now room step
  | exclGrab fTryOnly =>
    split at step
    · have role : SameRole (.exclGrab fTryOnly) .exclWithdrawRead := ⟨rfl, rfl, rfl, rfl⟩
      exact grabHandle_change ok now rfl rfl role rfl rfl rfl rfl thread thread step
    · have role : SameRole (.exclGrab fTryOnly) .exclWait := ⟨rfl, rfl, rfl, rfl⟩
      exact grabHandle_change ok now rfl rfl role rfl rfl rfl rfl thread thread step
  | exclWait =>
    split at step
    · cases step
      exact ok.pass ⟨rfl, rfl, rfl, rfl⟩ now ⟨rfl, rfl, rfl, rfl⟩ thread rfl rfl
    · cases step
  | exclAwake =>
    obtain ⟨rfl, rfl⟩ := step
    split
    case isTrue write =>
      exact ok.move same now ⟨rfl, rfl, rfl, rfl⟩ thread (fun inside => by cases inside)
        fun _ => .inr write
    case isFalse => exact ok.pass same now ⟨rfl, rfl, rfl, rfl⟩ thread rfl rfl
  | exclGrabAwake =>
    have role : SameRole .exclGrabAwake .exclWait := ⟨rfl, rfl, rfl, rfl⟩
    exact grabHandle_change ok now rfl rfl role rfl rfl rfl rfl thread thread step
  | exclWithdrawRead =>
    obtain ⟨rfl, rfl⟩ := step
    exact ok.pass same now ⟨rfl, rfl, rfl, rfl⟩ thread rfl rfl
  | exclWithdraw old =>
    exact exclWithdraw_change ok now step
  | exclGot =>
    obtain ⟨rfl, rfl⟩ := step
    exact exclGot_change ok now
  | leaveExclOwner =>
    simp only [writer thread, if_true] at step
    obtain ⟨rfl, rfl⟩ := step
    exact ok.pass same now ⟨rfl, rfl, rfl, rfl⟩ thread rfl rfl
  | leaveExclRecursions =>
    have recursions := ok.recursions me thread
    obtain ⟨rfl, rfl⟩ := step
    split
    case isTrue last =>
      exact ok.pass same now ⟨rfl, rfl, rfl, rfl⟩ (recursions.symm.trans last) rfl rfl
    case isFalse more =>
      have two : 1 < (m.thread me).cExcl := by omega
      exact ok.pass same now ⟨rfl, rfl, rfl, rfl⟩ two rfl rfl
  | leaveExclReads =>
    obtain ⟨rfl, rfl⟩ := step
    split
    case isTrue unread => exact lastLeave_change ok now unread
    case isFalse => exact ok.pass same now ⟨rfl, rfl, rfl, rfl⟩ trivial rfl rfl
  | leaveExclClear =>
    obtain ⟨rfl, rfl⟩ := step
    exact leaveExclClear_change ok now
  | leaveExclDisown =>
    obtain ⟨rfl, rfl⟩ := step
    exact leaveExclDisown_change ok now
  | leaveExclRead =>
    obtain ⟨rfl, rfl⟩ := step
    exact ok.pass same now ⟨rfl, rfl, rfl, rfl⟩ thread rfl rfl
  | leaveExclLoop old =>
    exact leaveExclLoop_change ok now step
  | leaveExclSignal =>
    obtain ⟨rfl, rfl⟩ := step
    exact ok.pass ⟨rfl, rfl, rfl, rfl⟩ now ⟨rfl, rfl, rfl, rfl⟩ trivial rfl rfl
  | leaveExclNeedReset =>
    obtain ⟨rfl, rfl⟩ := step
    exact ok.pass ⟨rfl, rfl, rfl, rfl⟩ now ⟨rfl, rfl, rfl, rfl⟩ thread rfl rfl
  | leaveExclSignalRead =>
    obtain ⟨rfl, rfl⟩ := step
    exact ok.pass ⟨rfl, rfl, rfl, rfl⟩ now ⟨rfl, rfl, rfl, rfl⟩ trivial rfl rfl
  | leaveExclUnwind =>
    obtain ⟨rfl, rfl⟩ := step
    have inside : 0 < (m.thread me).cExcl := Nat.zero_lt_of_lt thread
    have recursions := ok.recursions me inside
    refine recurse_change ok inside (by rw [now]; rfl) (by rw [now]; rfl) rfl rfl rfl
      (Nat.sub_pos_of_lt thread) (ok.reads me (.inl inside)) ?_
      ⟨ok.small.1, Nat.mod_lt _ (Nat.two_pow_pos 32)⟩
    dsimp only
    rw [dec32_eq (recursions ▸ inside) ok.small.2, recursions]

theorem labelStep_change {label : RwLabel} (ok : m.Ok)
    (room : label = .step → (m.thread me).pc.Room m.sect)
    (step : labelStep me m.sect (m.thread me) label = some (sect', th')) :
    Change m me sect' th' := by
  have same := SameSect.refl m.sect
  cases label with
  | call op =>
    simp only [labelStep] at step
    split at step
    case isFalse => cases step
    case isTrue may =>
      obtain ⟨now, may⟩ := may
      cases step
      cases op with
      | enterShared fTryOnly => exact ok.pass same now ⟨rfl, rfl, rfl, rfl⟩ trivial rfl rfl
      | leaveShared => exact ok.pass same now ⟨rfl, rfl, rfl, rfl⟩ may rfl rfl
      | enterExcl fTryOnly => exact ok.pass same now ⟨rfl, rfl, rfl, rfl⟩ may rfl rfl
      | leaveExcl => exact ok.pass same now ⟨rfl, rfl, rfl, rfl⟩ may rfl rfl
  | step => exact threadStep_change ok (room rfl) step
  | spurious =>
    simp only [labelStep] at step
    split at step
    case isFalse => cases step
    case isTrue now =>
      have thread := ok.thread me
      simp only [RwThread.Ok, now] at thread
      cases step
      exact ok.pass same now ⟨rfl, rfl, rfl, rfl⟩ thread rfl rfl

omit [Fintype ι] in
/-- A step of the machine is a step of one thread. -/
theorem RwMachine.step_cases {a : ι × RwLabel} (step : RwStep m a m') :
    ∃ sect' th', labelStep a.1 m.sect (m.thread a.1) a.2 = some (sect', th') ∧
      m' = ⟨sect', Function.update m.thread a.1 th'⟩ := by
  obtain ⟨⟨sect', th'⟩, taken, result⟩ := map_eq_some_iff.mp step
  exact ⟨sect', th', taken, result.symm⟩

theorem RwMachine.Ok.step {a : ι × RwLabel} (ok : m.Ok) (fit : CountsFit m a)
    (step : RwStep m a m') : m'.Ok := by
  obtain ⟨sect', th', taken, rfl⟩ := RwMachine.step_cases step
  exact ok.update (labelStep_change ok fit taken)

end VBox.Vmm.Pdm
