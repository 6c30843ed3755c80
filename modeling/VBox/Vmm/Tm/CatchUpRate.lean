import VBox.Vmm.Tm.DeliverRuns
import VBox.Vmm.Tm.VirtualSyncGet
import Mathlib.Tactic.Ring

/-!
How fast the clock runs during a catch-up.

A read takes off the offset a part of the time since `u64VirtualSyncCatchUpPrev`. It leaves the
time it returns there and not the raw time, so that the next read counts the offset as time.
-/

namespace VBox.Vmm.Tm

open VBox.Lib

variable {cTimers : Nat}

/-- A clock under reads that get the lock: the value last returned, and the latest raw time. -/
structure CatchUp (cTimers : Nat) where
  vs : VirtualSync cTimers
  u64 : Nat
  u64Raw : Nat

/-- A read with the lock, which neither ends the catch-up nor stops the clock. -/
def CatchUpRead (m : CatchUp cTimers) (u64Raw : Nat) (m' : CatchUp cTimers) : Prop :=
  m' = ⟨(tmVirtualSyncGetLocked m.vs u64Raw).1, (tmVirtualSyncGetLocked m.vs u64Raw).2.u64,
    max m.u64Raw u64Raw⟩ ∧
  (m.vs.fVirtualSyncTicking = true ∧ m.vs.fVirtualSyncCatchUp = true) ∧
  m'.vs.fVirtualSyncTicking = true ∧ m'.vs.fVirtualSyncCatchUp = true

/-- The times are below 2^63, and the gap to `u64VirtualSyncCatchUpPrev` is too long for a step
or starts so close to the last read that what is made up for twice is a nanosecond. -/
def Timely (m : CatchUp cTimers) (u64Raw : Nat) : Prop :=
  (u64Raw < 2 ^ 63 ∧ m.vs.u64VirtualSync + 1 < 2 ^ 63) ∧
  (2 ^ 32 ≤ u64Raw - m.vs.u64VirtualSyncCatchUpPrev ∨
    (m.u64Raw - m.vs.u64VirtualSyncCatchUpPrev) * m.vs.u32VirtualSyncCatchUpPercentage ≤ 100)

/-- A clock that is behind the raw time, at least by what has been given up. -/
structure Lagging (vs : VirtualSync cTimers) (u64Raw : Nat) : Prop where
  percentage : vs.u32VirtualSyncCatchUpPercentage < 2 ^ 32
  prev : vs.u64VirtualSyncCatchUpPrev < 2 ^ 63
  lag : vs.offVirtualSyncGivenUp ≤ vs.offVirtualSync
  behind : vs.offVirtualSync ≤ u64Raw

section Step

variable {vs : VirtualSync cTimers} {u64Raw : Nat}

/-- A step of the catch-up that does not complete it. -/
theorem catchUpStep_made (lagging : Lagging vs u64Raw) (small : u64Raw < 2 ^ 63)
    (open' : (catchUpStep vs u64Raw).2 ≠ some true) :
    ∃ u64Sub, (catchUpStep vs u64Raw).1 + u64Sub = vs.offVirtualSync ∧
      vs.offVirtualSyncGivenUp ≤ (catchUpStep vs u64Raw).1 ∧
      100 * u64Sub ≤ (u64Raw - vs.u64VirtualSyncCatchUpPrev) * vs.u32VirtualSyncCatchUpPercentage ∧
      (2 ^ 32 ≤ u64Raw - vs.u64VirtualSyncCatchUpPrev → u64Sub = 0) ∧
      ((catchUpStep vs u64Raw).2 = none → (catchUpStep vs u64Raw).1 = vs.offVirtualSync) := by
  obtain ⟨percentage, prev, lag, behind⟩ := lagging
  rw [catchUpStep] at open' ⊢
  dsimp only at open' ⊢
  by_cases near : sub64 u64Raw vs.u64VirtualSyncCatchUpPrev / 2 ^ 32 = 0
  · have delta : sub64 u64Raw vs.u64VirtualSyncCatchUpPrev =
        u64Raw - vs.u64VirtualSyncCatchUpPrev ∧ u64Raw - vs.u64VirtualSyncCatchUpPrev < 2 ^ 32 := by
      unfold sub64 at near ⊢
      omega
    have product : (u64Raw - vs.u64VirtualSyncCatchUpPrev) *
        vs.u32VirtualSyncCatchUpPercentage < 2 ^ 32 * 2 ^ 32 :=
      Nat.mul_lt_mul'' delta.2 percentage
    generalize part : (u64Raw - vs.u64VirtualSyncCatchUpPrev) *
      vs.u32VirtualSyncCatchUpPercentage = made at product ⊢
    have sub : multU64ByU32DivByU32 (sub64 u64Raw vs.u64VirtualSyncCatchUpPrev)
        vs.u32VirtualSyncCatchUpPercentage 100 = made / 100 := by
      rw [delta.1, multU64ByU32DivByU32, part]
      exact Nat.mod_eq_of_lt (by omega)
    have sum : add64 (made / 100) vs.offVirtualSyncGivenUp =
        made / 100 + vs.offVirtualSyncGivenUp := Nat.mod_eq_of_lt (by omega)
    rw [if_pos near, sub, sum] at open' ⊢
    split at open'
    case isTrue more =>
      rw [if_pos more]
      have off : sub64 vs.offVirtualSync (made / 100) = vs.offVirtualSync - made / 100 := by
        unfold sub64
        omega
      refine ⟨made / 100, ?_, ?_, by omega, by omega, fun none => by cases none⟩
      · dsimp only
        omega
      · dsimp only
        omega
    case isFalse => exact absurd rfl open'
  · rw [if_neg near]
    exact ⟨0, rfl, lag, Nat.zero_le _, fun _ => rfl, fun _ => rfl⟩

/-- What a read leaves. -/
structure ReadMade (vs : VirtualSync cTimers) (u64Raw u64Sub : Nat) (vs' : VirtualSync cTimers) :
    Prop where
  off : vs'.offVirtualSync + u64Sub = vs.offVirtualSync
  lag : vs'.offVirtualSyncGivenUp ≤ vs'.offVirtualSync
  percentage : vs'.u32VirtualSyncCatchUpPercentage = vs.u32VirtualSyncCatchUpPercentage
  made : 100 * u64Sub ≤
    (u64Raw - vs.u64VirtualSyncCatchUpPrev) * vs.u32VirtualSyncCatchUpPercentage
  far : 2 ^ 32 ≤ u64Raw - vs.u64VirtualSyncCatchUpPrev → u64Sub = 0
  time : vs'.u64VirtualSync = u64Raw - vs'.offVirtualSync ∨
    vs'.u64VirtualSync = vs.u64VirtualSync + 1
  shown : u64Raw ≤ vs'.u64VirtualSync + vs'.offVirtualSync
  prev : vs'.u64VirtualSyncCatchUpPrev < 2 ^ 63

theorem CatchUpRead.made {m m' : CatchUp cTimers} (read : CatchUpRead m u64Raw m')
    (lagging : Lagging m.vs u64Raw) (small : u64Raw < 2 ^ 63)
    (synced : m.vs.u64VirtualSync + 1 < 2 ^ 63) :
    (∃ u64Sub, ReadMade m.vs u64Raw u64Sub m'.vs) ∧ m'.u64 = m'.vs.u64VirtualSync ∧
      m'.u64Raw = max m.u64Raw u64Raw := by
  obtain ⟨rfl, ⟨ticking, catchUp⟩, ticks, catches⟩ := read
  dsimp only at ticks catches ⊢
  rw [tmVirtualSyncGetLocked, if_pos ticking, if_pos catchUp,
    tmVirtualSyncGetHandleCatchUpLocked] at *
  dsimp only at ticks catches ⊢
  split at ticks
  case isFalse => cases ticks
  case isTrue notDue =>
    rw [if_pos notDue] at catches ⊢
    have open' : (catchUpStep m.vs u64Raw).2 ≠ some true := by
      intro stop
      rw [stop, if_pos rfl] at catches
      cases catches
    obtain ⟨u64Sub, off, lag, made, far, same⟩ := catchUpStep_made lagging small open'
    have behind := lagging.behind
    have prev := lagging.prev
    have offNew : (if (catchUpStep m.vs u64Raw).2.isSome then (catchUpStep m.vs u64Raw).1
        else m.vs.offVirtualSync) = (catchUpStep m.vs u64Raw).1 := by
      split
      · rfl
      · rename_i none
        exact (same (by simpa using none)).symm
    have plain : sub64 u64Raw (catchUpStep m.vs u64Raw).1 =
        u64Raw - (catchUpStep m.vs u64Raw).1 := by
      unfold sub64
      omega
    have time : adjustLast m.vs.u64VirtualSync (sub64 u64Raw (catchUpStep m.vs u64Raw).1) =
          u64Raw - (catchUpStep m.vs u64Raw).1 ∨
        adjustLast m.vs.u64VirtualSync (sub64 u64Raw (catchUpStep m.vs u64Raw).1) =
          m.vs.u64VirtualSync + 1 ∧ u64Raw - (catchUpStep m.vs u64Raw).1 < m.vs.u64VirtualSync := by
      rw [plain, adjustLast]
      split
      case isTrue before => exact .inr ⟨Nat.mod_eq_of_lt (by omega), before⟩
      case isFalse => exact .inl rfl
    refine ⟨⟨u64Sub, ⟨?_, ?_, rfl, made, far, ?_, ?_, ?_⟩⟩, rfl, rfl⟩
    · dsimp only
      rw [offNew, off]
    · dsimp only
      rw [offNew]
      exact lag
    · dsimp only
      rw [offNew]
      exact time.imp_right And.left
    · dsimp only
      rw [offNew]
      omega
    · dsimp only
      split <;> omega

end Step

section Runs

variable {m m' m'' : CatchUp cTimers} {u64Raw u64Raw' : Nat} {reads : List Nat}

/-- How far the clock has come since a read, in hundredths of a nanosecond. -/
structure InRate (m : CatchUp cTimers) (cReads : Nat) (m' : CatchUp cTimers) : Prop where
  percentage : m'.vs.u32VirtualSyncCatchUpPercentage = m.vs.u32VirtualSyncCatchUpPercentage
  prev : m'.vs.u64VirtualSyncCatchUpPrev < 2 ^ 63
  lag : m'.vs.offVirtualSyncGivenUp ≤ m'.vs.offVirtualSync
  later : m.u64Raw ≤ m'.u64Raw
  made : ∃ u64Sub, m'.vs.offVirtualSync + u64Sub = m.vs.offVirtualSync ∧
    100 * u64Sub ≤ (m'.u64Raw - m.u64Raw) * m.vs.u32VirtualSyncCatchUpPercentage + 100 * cReads
  recorded : m'.u64 = m'.vs.u64VirtualSync
  advance : 100 * m'.u64 ≤ 100 * m.u64 +
    (m'.u64Raw - m.u64Raw) * (100 + m.vs.u32VirtualSyncCatchUpPercentage) + 100 * cReads

/-- A read more. -/
theorem InRate.read (inRate : InRate m reads.length m')
    (percentage : m.vs.u32VirtualSyncCatchUpPercentage < 2 ^ 32)
    (behind : m.vs.offVirtualSync ≤ m.u64Raw)
    (shown : m.u64Raw ≤ m.u64 + m.vs.offVirtualSync) (from' : m.u64Raw ≤ u64Raw)
    (timely : Timely m' u64Raw) (read : CatchUpRead m' u64Raw m'') :
    InRate m (reads ++ [u64Raw]).length m'' := by
  obtain ⟨same, prev, lag, later, ⟨u64Sub, off, made⟩, recorded, advance⟩ := inRate
  obtain ⟨⟨small, synced⟩, close⟩ := timely
  obtain ⟨⟨u64More, step⟩, recorded', raw⟩ := read.made
    ⟨same ▸ percentage, prev, lag, by omega⟩ small synced
  have more := step.made
  rw [same] at more close
  -- what is made up for is the time since the latest read, and the nanosecond
  have rate : 100 * u64More ≤
      (u64Raw - m'.u64Raw) * m.vs.u32VirtualSyncCatchUpPercentage + 100 := by
    rcases close with far | close
    · rw [step.far far]
      omega
    · refine more.trans (le_trans (Nat.mul_le_mul_right _ (by omega :
        u64Raw - m'.vs.u64VirtualSyncCatchUpPrev ≤
          u64Raw - m'.u64Raw + (m'.u64Raw - m'.vs.u64VirtualSyncCatchUpPrev))) ?_)
      rw [Nat.add_mul]
      exact Nat.add_le_add_left close _
  have passed : m''.u64Raw - m.u64Raw = m'.u64Raw - m.u64Raw + (u64Raw - m'.u64Raw) := by omega
  have offNew := step.off
  refine ⟨step.percentage.trans same, step.prev, step.lag, by omega,
    ⟨u64Sub + u64More, by omega, ?_⟩, recorded', ?_⟩
  · rw [passed, Nat.add_mul, List.length_append, List.length_singleton]
    omega
  · rw [Nat.mul_add] at advance
    rw [recorded', passed, List.length_append, List.length_singleton, Nat.mul_add,
      Nat.add_mul _ _ m.vs.u32VirtualSyncCatchUpPercentage]
    rcases step.time with time | time
    · omega
    · omega

theorem inRate_run (percentage : m.vs.u32VirtualSyncCatchUpPercentage < 2 ^ 32)
    (behind : m.vs.offVirtualSync ≤ m.u64Raw) (shown : m.u64Raw ≤ m.u64 + m.vs.offVirtualSync)
    (start : InRate m 0 m) (run : Run (Guarded Timely CatchUpRead) m reads m')
    (from' : ∀ u64Raw ∈ reads, m.u64Raw ≤ u64Raw) : InRate m reads.length m' := by
  have kept : (∀ u64Raw ∈ [] ++ reads, m.u64Raw ≤ u64Raw) → InRate m ([] ++ reads).length m' :=
    run.history (fun past m' => (∀ u64Raw ∈ past, m.u64Raw ≤ u64Raw) → InRate m past.length m')
      (fun inRate step from' =>
        (inRate fun u64Raw member => from' u64Raw (List.mem_append_left _ member)).read percentage
          behind shown (from' _ (by simp)) step.1 step.2) fun _ => start
  exact kept from'

/-- The latest raw time is that of a read. -/
theorem raw_le (run : Run (Guarded Timely CatchUpRead) m reads m') (le : m.u64Raw ≤ u64Raw')
    (until' : ∀ u64Raw ∈ reads, u64Raw ≤ u64Raw') : m'.u64Raw ≤ u64Raw' := by
  induction run with
  | done => exact le
  | next step _ ih =>
    obtain ⟨-, rfl, -⟩ := step
    exact ih (Nat.max_le.mpr ⟨le, until' _ List.mem_cons_self⟩)
      fun u64Raw member => until' u64Raw (List.mem_cons_of_mem _ member)

/-- From one read to another, the clock advances by the time between them with the percentage
and by a nanosecond a read at most. -/
theorem run_rate (u64Raw u64Raw' : Nat) {vs : VirtualSync cTimers} (lagging : Lagging vs u64Raw)
    (small : u64Raw < 2 ^ 63 ∧ vs.u64VirtualSync + 1 < 2 ^ 63) {u64 : Nat}
    (first : CatchUpRead ⟨vs, u64, u64Raw⟩ u64Raw m)
    (run : Run (Guarded Timely CatchUpRead) m reads m')
    (between : ∀ u64 ∈ reads, u64Raw ≤ u64 ∧ u64 ≤ u64Raw') (later : u64Raw ≤ u64Raw') :
    m'.u64 ≤ m.u64 + (u64Raw' - u64Raw) * (100 + vs.u32VirtualSyncCatchUpPercentage) / 100 +
        reads.length ∧
      m'.vs.offVirtualSyncGivenUp ≤ m'.vs.offVirtualSync := by
  obtain ⟨⟨u64Sub, (made : ReadMade vs u64Raw u64Sub m.vs)⟩, recorded, raw⟩ :=
    first.made lagging small.1 small.2
  have raw' : m.u64Raw = u64Raw := raw.trans (Nat.max_self _)
  have off := made.off
  have behind := lagging.behind
  have shown := made.shown
  have same := made.percentage
  have inRate := inRate_run (by rw [same]; exact lagging.percentage) (by omega) (by omega)
    ⟨rfl, made.prev, made.lag, Nat.le_refl _, ⟨0, rfl, Nat.zero_le _⟩, recorded, by omega⟩ run
    (fun u64 member => by rw [raw']; exact (between u64 member).1)
  have last := raw_le run (by omega) fun u64 member => (between u64 member).2
  have advance := inRate.advance
  rw [same, raw'] at advance
  have most := Nat.mul_le_mul_right (100 + vs.u32VirtualSyncCatchUpPercentage)
    (Nat.sub_le_sub_right last u64Raw)
  exact ⟨by omega, inRate.lag⟩

end Runs

/-- A clock that catches up at ten percent. -/
def laggingVs (off : Nat) : VirtualSync 0 :=
  { stoppedVs 0 with
    offVirtualSync := off
    fVirtualSyncCatchUp := true
    u64VirtualSyncCatchUpPrev := 10000000
    u32VirtualSyncCatchUpPercentage := 10 }

/-- The clock after reads. -/
def laggingRead (off : Nat) (reads : List Nat) : CatchUp 0 :=
  reads.foldl (fun m u64Raw => ⟨(tmVirtualSyncGetLocked m.vs u64Raw).1,
    (tmVirtualSyncGetLocked m.vs u64Raw).2.u64, max m.u64Raw u64Raw⟩) ⟨laggingVs off, 0, 10000000⟩

/-- Near the end of a catch-up the rate is kept. -/
theorem run_rate_near :
    (laggingRead 10 [10000000, 10000050]).u64 ≤
        (laggingRead 10 [10000000]).u64 + 50 * 110 / 100 + 1 ∧
      (laggingRead 10 [10000000, 10000050]).vs.offVirtualSyncGivenUp ≤
        (laggingRead 10 [10000000, 10000050]).vs.offVirtualSync :=
  run_rate 10000000 10000050 ⟨by decide, by decide, by decide, by decide⟩ (by decide)
    ⟨rfl, ⟨rfl, rfl⟩, by decide +kernel, by decide +kernel⟩
    (.single ⟨⟨by decide, .inr (by decide +kernel)⟩, rfl,
      ⟨by decide +kernel, by decide +kernel⟩, by decide +kernel, by decide +kernel⟩)
    (by simp) (by decide)

/-- A nanosecond after a read, a clock that is a millisecond behind has come 100001 ns. -/
theorem not_in_rate : Lagging (laggingVs 1000000) 10000000 ∧
    ∃ m m', CatchUpRead ⟨laggingVs 1000000, 0, 10000000⟩ 10000000 m ∧
      Run CatchUpRead m [10000001] m' ∧ m.u64 = 9000000 ∧ m'.u64 = 9100001 ∧
      ¬ m'.u64 ≤ m.u64 + (10000001 - 10000000) * 110 / 100 + 2 :=
  ⟨⟨by decide, by decide, by decide, by decide⟩, laggingRead 1000000 [10000000],
    laggingRead 1000000 [10000000, 10000001],
    ⟨rfl, ⟨rfl, rfl⟩, by decide +kernel, by decide +kernel⟩,
    .single ⟨rfl, ⟨by decide +kernel, by decide +kernel⟩, by decide +kernel, by decide +kernel⟩,
    by decide +kernel, by decide +kernel, by decide +kernel⟩

end VBox.Vmm.Tm
