import VBox.Runtime.SgStream

/-!
Sequences of transfers.

`SgOp` is a call of one of the transfer functions on a pool of buffers,
`SgOp.flat` the same operation on byte strings. `sgRun_iff` compares whole
sequences of calls; `copyToBuf_gap` is a buffer with an empty segment in the
middle, at which a copy stops.
-/

namespace VBox.Runtime

open Option (map_map map_some)
open VBox.Lib Function

/-! ### Operations on byte strings -/

namespace ByteStream

def remaining (s : ByteStream) : Nat := s.bytes.length - s.pos

def advance (s : ByteStream) (n : Nat) : ByteStream := ⟨s.bytes, s.pos + n⟩

/-- The next `n` bytes. -/
def read (s : ByteStream) (n : Nat) : List UInt8 := (s.bytes.drop s.pos).take n

/-- Overwrite the next bytes and move past them. -/
def write (s : ByteStream) (data : List UInt8) : ByteStream :=
  ⟨splice s.bytes s.pos data, s.pos + data.length⟩

end ByteStream

/-- A call on buffers named by numbers; a copy is between two different ones. -/
inductive SgOp where
  | set (i : Nat) (ubFill : UInt8) (cbSet : Nat)
  | copyToBuf (i cbCopy : Nat)
  | copyFromBuf (i : Nat) (pvBuf : Buf) (cbCopy : Nat)
  | advance (i cbAdvance : Nat)
  | copy (dst src : Nat) (apart : dst ≠ src) (cbCopy : Nat)

/-- The value returned, and the bytes put into the caller's buffer. -/
abbrev SgResult := Nat × List UInt8

/-- The call, as the code executes it. -/
def SgOp.exec (bufs : Nat → RtSgBuf) : SgOp → Option (SgResult × (Nat → RtSgBuf))
  | .set i ubFill cbSet =>
      (rtSgBufSet (bufs i) ubFill cbSet).map fun r => ((r.1, []), Function.update bufs i r.2)
  | .copyToBuf i cbCopy =>
      (rtSgBufCopyToBuf (bufs i) cbCopy).map fun r =>
        ((r.1, r.2.2), Function.update bufs i r.2.1)
  | .copyFromBuf i pvBuf cbCopy =>
      (rtSgBufCopyFromBuf (bufs i) pvBuf cbCopy).map fun r =>
        ((r.1, []), Function.update bufs i r.2)
  | .advance i cbAdvance =>
      (rtSgBufAdvance (bufs i) cbAdvance).map fun r => ((r.1, []), Function.update bufs i r.2)
  | .copy dst src _ cbCopy =>
      (rtSgBufCopy (bufs dst) (bufs src) cbCopy).map fun r =>
        ((r.1, []), Function.update (Function.update bufs dst r.2.1) src r.2.2)

/-- The same operation on byte strings: the smaller of what is asked and what is
left, in order. -/
def SgOp.flat (streams : Nat → ByteStream) : SgOp → SgResult × (Nat → ByteStream)
  | .set i ubFill cbSet =>
      let n := min cbSet (streams i).remaining
      ((n, []), Function.update streams i ((streams i).write (List.replicate n ubFill)))
  | .copyToBuf i cbCopy =>
      let n := min cbCopy (streams i).remaining
      ((n, (streams i).read n), Function.update streams i ((streams i).advance n))
  | .copyFromBuf i pvBuf cbCopy =>
      let n := min cbCopy (streams i).remaining
      ((n, []), Function.update streams i ((streams i).write ((List.range n).map pvBuf)))
  | .advance i cbAdvance =>
      let n := min cbAdvance (streams i).remaining
      ((n, []), Function.update streams i ((streams i).advance n))
  | .copy dst src _ cbCopy =>
      let n := min cbCopy (min (streams dst).remaining (streams src).remaining)
      ((n, []), Function.update (Function.update streams dst
        ((streams dst).write ((streams src).read n))) src ((streams src).advance n))

/-- The buffers as byte strings. -/
def views (bufs : Nat → RtSgBuf) : Nat → ByteStream := fun i => view (bufs i)

/-- The pieces the call reaches are small and not empty. -/
def SgOp.Unhindered (bufs : Nat → RtSgBuf) : SgOp → Prop
  | .set i _ cb | .copyToBuf i cb | .copyFromBuf i _ cb | .advance i cb =>
      Clear cb (pieces (bufs i))
  | .copy dst src _ cb => CopyClear cb (bufs dst) (bufs src)

/-- The call returns what the byte string operation returns and does to the
strings what it does. -/
def SgOp.Agrees (bufs : Nat → RtSgBuf) (op : SgOp) (bufs' : Nat → RtSgBuf) : Prop :=
  op.exec bufs = some ((op.flat (views bufs)).1, bufs') ∧ views bufs' = (op.flat (views bufs)).2

/-! ### One call -/

section OneCall

variable {bufs : Nat → RtSgBuf}

theorem view_remaining {sg : RtSgBuf} (positioned : Positioned sg) :
    (view sg).remaining = remaining sg := by
  have total := positioned.remaining_le
  rw [ByteStream.remaining, view, position]
  dsimp only
  omega

theorem views_update (bufs : Nat → RtSgBuf) (i : Nat) (sg : RtSgBuf) :
    views (update bufs i sg) = update (views bufs) i (view sg) :=
  comp_update view bufs i sg

theorem positioned_update (positioned : ∀ i, Positioned (bufs i)) {sg : RtSgBuf}
    (new : Positioned sg) (i : Nat) : ∀ j, Positioned (update bufs i sg j) := by
  intro j
  rcases eq_or_ne j i with rfl | other
  · rwa [update_self]
  · rw [update_of_ne other]
    exact positioned j

/-- A request that gets nothing is not stopped by anything. -/
theorem clear_of_nothing {sg : RtSgBuf} {cb : Nat} (nothing : available sg cb = 0) :
    Clear cb (pieces sg) := by
  rw [available, Nat.min_eq_zero_iff] at nothing
  rcases nothing with rfl | empty
  · exact clear_zero _
  · exact clear_of_sum_eq_zero empty cb

/-- A call that went through the loop agrees with the string exactly when its
request is clear. -/
theorem StreamUse.agrees {α : Type} {use : ChunkUse α} {flat : StreamFun α}
    (law : StreamUse use flat) (positioned : ∀ i, Positioned (bufs i)) {op : SgOp} {i cb : Nat}
    (a : α) (bytes : α → List UInt8)
    (exec : op.exec bufs = (sgLoop use cb (bufs i) a).map fun r =>
      ((cb - r.1, bytes r.2.2), update bufs i r.2.1))
    (result : (op.flat (views bufs)).1 = (available (bufs i) cb, bytes (flat
      (bufs i).paSegs.flatten (position (bufs i)) (available (bufs i) cb) a).2))
    (after : (op.flat (views bufs)).2 = update (views bufs) i
      ⟨(flat (bufs i).paSegs.flatten (position (bufs i)) (available (bufs i) cb) a).1,
        position (bufs i) + available (bufs i) cb⟩) :
    (Clear cb (pieces (bufs i)) → ∃ bufs', op.Agrees bufs bufs' ∧ ∀ j, Positioned (bufs' j)) ∧
      (¬ Clear cb (pieces (bufs i)) → ∀ bufs', ¬ op.Agrees bufs bufs') := by
  obtain ⟨whole, short⟩ : (Clear cb _ → _) ∧ _ := law.loop (positioned i) a
  have bound : available (bufs i) cb ≤ cb := Nat.min_le_left _ _
  constructor
  · intro clear
    obtain ⟨sg', run, new, seen⟩ := whole clear
    refine ⟨update bufs i sg', ⟨?_, ?_⟩, positioned_update positioned new i⟩
    · rw [exec, run, result, map_some, Nat.sub_sub_self bound]
    · rw [views_update, seen, after]
  · rintro blocked bufs' ⟨agrees, -⟩
    have some : available (bufs i) cb ≠ 0 := fun nothing => blocked (clear_of_nothing nothing)
    rw [exec] at agrees
    obtain ⟨r, run, same⟩ := Option.map_eq_some_iff.mp agrees
    have less := short blocked r run
    have count := congrArg (fun s => s.1.1) same
    dsimp only at count
    rw [result] at count
    dsimp only at count
    omega

theorem copyClear_of_nothing {sgDst sgSrc : RtSgBuf} {cb : Nat}
    (nothing : copyAvailable cb sgDst sgSrc = 0) : CopyClear cb sgDst sgSrc := by
  rw [copyAvailable] at nothing
  rcases Nat.eq_zero_or_pos cb with rfl | asked
  · rw [CopyClear, Nat.zero_min, Nat.zero_min]
    exact ⟨clear_zero _, clear_zero _⟩
  rcases Nat.eq_zero_or_pos (remaining sgDst) with none | some
  · rw [CopyClear, none, Nat.min_zero]
    exact ⟨clear_of_sum_eq_zero none _, clear_zero _⟩
  · have none : remaining sgSrc = 0 := by omega
    rw [CopyClear, none, Nat.min_zero]
    exact ⟨clear_zero _, clear_of_sum_eq_zero none _⟩

theorem copy_agrees (positioned : ∀ i, Positioned (bufs i)) {dst src : Nat} (apart : dst ≠ src)
    (cb : Nat) : (CopyClear cb (bufs dst) (bufs src) →
      ∃ bufs', (SgOp.copy dst src apart cb).Agrees bufs bufs' ∧ ∀ j, Positioned (bufs' j)) ∧
      (¬ CopyClear cb (bufs dst) (bufs src) →
        ∀ bufs', ¬ (SgOp.copy dst src apart cb).Agrees bufs bufs') := by
  obtain ⟨whole, short⟩ : (CopyClear cb _ _ → _) ∧ _ :=
    sgCopyLoop_spec (positioned dst) (positioned src)
  have bound : copyAvailable cb (bufs dst) (bufs src) ≤ cb := Nat.min_le_left _ _
  have amount : min cb (min (views bufs dst).remaining (views bufs src).remaining) =
      copyAvailable cb (bufs dst) (bufs src) := by
    rw [views, views, view_remaining (positioned dst), view_remaining (positioned src),
      copyAvailable]
  constructor
  · intro clear
    obtain ⟨dst', src', run, dstNew, srcNew, dstSeen, srcSeen⟩ := whole clear
    have size : ((view (bufs src)).read (copyAvailable cb (bufs dst) (bufs src))).length =
        copyAvailable cb (bufs dst) (bufs src) := by
      have total := (positioned src).remaining_le
      have atMost : copyAvailable cb (bufs dst) (bufs src) ≤ remaining (bufs src) :=
        (Nat.min_le_right _ _).trans (Nat.min_le_right _ _)
      rw [ByteStream.read, List.length_take, List.length_drop, view, position]
      dsimp only
      omega
    refine ⟨update (update bufs dst dst') src src', ⟨?_, ?_⟩,
      positioned_update (positioned_update positioned dstNew dst) srcNew src⟩
    · rw [SgOp.exec, rtSgBufCopy, run, SgOp.flat]
      dsimp only
      rw [amount, map_some, map_some, Nat.sub_sub_self bound]
    · rw [views_update, views_update, dstSeen, srcSeen, SgOp.flat]
      dsimp only
      rw [amount, ByteStream.write]
      dsimp only [views]
      rw [size]
      rfl
  · rintro blocked bufs' ⟨agrees, -⟩
    have some : copyAvailable cb (bufs dst) (bufs src) ≠ 0 :=
      fun nothing => blocked (copyClear_of_nothing nothing)
    rw [SgOp.exec, rtSgBufCopy, map_map] at agrees
    obtain ⟨r, run, same⟩ := Option.map_eq_some_iff.mp agrees
    have less := short blocked r run
    have count := congrArg (fun s => s.1.1) same
    rw [SgOp.flat] at count
    dsimp only [comp_apply] at count
    rw [amount] at count
    omega

/-- A call agrees with the byte string exactly when its pieces do not hinder it. -/
theorem SgOp.agrees (op : SgOp) (positioned : ∀ i, Positioned (bufs i)) :
    (op.Unhindered bufs → ∃ bufs', op.Agrees bufs bufs' ∧ ∀ j, Positioned (bufs' j)) ∧
      (¬ op.Unhindered bufs → ∀ bufs', ¬ op.Agrees bufs bufs') := by
  have amount : ∀ i cb, min cb (views bufs i).remaining = available (bufs i) cb := by
    intro i cb
    rw [views, view_remaining (positioned i), available]
  cases op with
  | set i ubFill cbSet =>
    refine (memset_use ubFill).agrees positioned () (fun _ => []) ?_ ?_ ?_
    · rw [SgOp.exec, rtSgBufSet, map_map]
      rfl
    · rw [SgOp.flat]
      dsimp only
      rw [amount]
    · rw [SgOp.flat]
      dsimp only
      rw [amount, ByteStream.write, List.length_replicate]
      rfl
  | copyToBuf i cbCopy =>
    refine memcpyOut_use.agrees positioned [] (fun out => out) ?_ ?_ ?_
    · rw [SgOp.exec, rtSgBufCopyToBuf, map_map]
      rfl
    · rw [SgOp.flat]
      dsimp only
      rw [amount]
      rfl
    · rw [SgOp.flat]
      dsimp only
      rw [amount]
      rfl
  | copyFromBuf i pvBuf cbCopy =>
    refine memcpyIn_use.agrees positioned pvBuf (fun _ => []) ?_ ?_ ?_
    · rw [SgOp.exec, rtSgBufCopyFromBuf, map_map]
      rfl
    · rw [SgOp.flat]
      dsimp only
      rw [amount]
    · rw [SgOp.flat]
      dsimp only
      rw [amount, ByteStream.write, List.length_map, List.length_range]
      rfl
  | advance i cbAdvance =>
    refine skip_use.agrees positioned () (fun _ => []) ?_ ?_ ?_
    · rw [SgOp.exec, rtSgBufAdvance, map_map]
      rfl
    · rw [SgOp.flat]
      dsimp only
      rw [amount]
    · rw [SgOp.flat]
      dsimp only
      rw [amount]
      rfl
  | copy dst src apart cbCopy => exact copy_agrees positioned apart cbCopy

end OneCall

/-! ### Sequences -/

/-- Every call of the sequence agrees with the byte strings. -/
def AllAgree : (Nat → RtSgBuf) → List SgOp → Prop
  | _, [] => True
  | bufs, op :: ops => ∃ bufs', op.Agrees bufs bufs' ∧ AllAgree bufs' ops

/-- Every call finds its pieces small and not empty. -/
def AllUnhindered : (Nat → RtSgBuf) → List SgOp → Prop
  | _, [] => True
  | bufs, op :: ops => op.Unhindered bufs ∧
      ∀ result bufs', op.exec bufs = some (result, bufs') → AllUnhindered bufs' ops

theorem rtSgBufInit_positioned (paSegs : List (List UInt8)) : Positioned (rtSgBufInit paSegs) := by
  cases paSegs with
  | nil => exact Or.inl ⟨rfl, rfl⟩
  | cons seg segs =>
    refine Or.inr ⟨seg, rfl, le_refl _, ?_⟩
    simp [rtSgBufInit]

/-- A sequence of transfers does to the buffers what it does to their byte strings
exactly when no call reaches an empty piece with data behind it, or a piece of
more than 32 MiB. -/
theorem sgRun_iff {bufs : Nat → RtSgBuf} (positioned : ∀ i, Positioned (bufs i))
    (ops : List SgOp) : AllAgree bufs ops ↔ AllUnhindered bufs ops := by
  induction ops generalizing bufs with
  | nil => exact Iff.rfl
  | cons op ops ih =>
    obtain ⟨whole, short⟩ := op.agrees positioned
    constructor
    · rintro ⟨bufs', agrees, rest⟩
      by_cases unhindered : op.Unhindered bufs
      · refine ⟨unhindered, fun result bufs'' run => ?_⟩
        obtain ⟨bufs₁, agrees₁, positioned₁⟩ := whole unhindered
        have same := agrees.1.symm.trans agrees₁.1
        have same' := run.symm.trans agrees.1
        cases same'
        cases same
        exact (ih positioned₁).mp rest
      · exact absurd agrees (short unhindered bufs')
    · rintro ⟨unhindered, rest⟩
      obtain ⟨bufs', agrees, positioned'⟩ := whole unhindered
      exact ⟨bufs', agrees, (ih positioned').mpr (rest _ bufs' agrees.1)⟩

/-- Two bytes from two segments. -/
theorem sgRun_iff_two : AllAgree (fun _ => rtSgBufInit [[1], [2]]) [.copyToBuf 0 2] := by
  refine (sgRun_iff (fun _ => rtSgBufInit_positioned _) _).mpr ⟨?_, fun _ _ _ => trivial⟩
  exact Or.inr ⟨by decide, Or.inl (by decide), Or.inr ⟨by decide, Or.inl (by decide), trivial⟩⟩

/-- Copying two bytes out of `[1], [], [2]` does not give two bytes: the empty
segment ends the copy. -/
theorem copyToBuf_gap : (∀ i : Nat, Positioned ((fun _ => rtSgBufInit [[1], [], [2]]) i)) ∧
    ¬ AllAgree (fun _ => rtSgBufInit [[1], [], [2]]) [.copyToBuf 0 2] := by
  have positioned : ∀ i : Nat, Positioned ((fun _ => rtSgBufInit [[1], [], [2]]) i) :=
    fun _ => rtSgBufInit_positioned _
  refine ⟨positioned, ?_⟩
  rintro ⟨bufs', agrees, -⟩
  refine (SgOp.copyToBuf 0 2).agrees positioned |>.2 ?_ bufs' agrees
  rintro (impossible | ⟨-, -, impossible | ⟨-, impossible | impossible, -⟩⟩)
  · exact absurd impossible (by decide)
  · exact absurd impossible (by decide)
  · exact absurd impossible (by decide)
  · exact absurd impossible (by decide)

end VBox.Runtime
