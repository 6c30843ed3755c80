import VBox.Lib.Run
import VBox.Devices.Eeprom

/-!
Runs of the EEPROM on any values of the wires.

Every address that is decoded has six bits; only a sequential read goes on from it. The one access
that can leave the array is the fetch of the next word when the last bit of a word goes out.
-/

namespace VBox.Devices.Eeprom

open List
open VBox.Lib (Run Guarded)

/-- The machine is shifting bits. -/
def Shifting (e : Eeprom93C46) : Prop := e.eState = .readingDi ∨ e.eState = .writingDo

/-- What an access to the wires finds. -/
structure Inv (e : Eeprom93C46) : Prop where
  mask : Shifting e → e.u16Mask ≠ 0
  reading : e.eState = .readingDi → e.eOp ≠ .read
  writing : e.eState = .writingDo → e.eOp = .read
  /-- Operation code and address are eight bits. -/
  decoding : e.eState = .readingDi → e.eOp = .decode → e.u16Word < 256 ∧ e.u16Mask < 256
  address : e.eState = .readingDi → e.eOp = .write → e.u16Addr < SIZE

/-- A state in which nothing is shifted. -/
theorem Inv.of_not_shifting {e : Eeprom93C46} (idle : ¬ Shifting e) : Inv e where
  mask shifting := absurd shifting idle
  reading state := absurd (.inl state) idle
  writing state := absurd (.inr state) idle
  decoding state := absurd (.inl state) idle
  address state := absurd (.inl state) idle

theorem inv_readingDi {e : Eeprom93C46} (state : e.eState = .readingDi) (mask : e.u16Mask ≠ 0)
    (op : e.eOp ≠ .read) (decoding : e.eOp = .decode → e.u16Word < 256 ∧ e.u16Mask < 256)
    (address : e.eOp = .write → e.u16Addr < SIZE) : Inv e where
  mask _ := mask
  reading _ := op
  writing writing := by
    rw [state] at writing
    cases writing
  decoding _ := decoding
  address _ := address

/-- What an operation adds to the indices lies in the array. -/
def Keeps (used used' : List Nat) : Prop := used ⊆ used' ∧ ∀ i ∈ used', i ∈ used ∨ i < SIZE

theorem Keeps.refl (used : List Nat) : Keeps used used := ⟨fun _ member => member, fun _ => .inl⟩

theorem Keeps.cons {used : List Nat} {i : Nat} (inside : i < SIZE) : Keeps used (i :: used) := by
  refine ⟨fun _ => mem_cons_of_mem _, fun j member => ?_⟩
  rcases mem_cons.mp member with rfl | before
  · exact .inr inside
  · exact .inl before

theorem Keeps.trans {used used' used'' : List Nat} (first : Keeps used used')
    (second : Keeps used' used'') : Keeps used used'' := by
  refine ⟨fun i member => second.1 (first.1 member), fun i member => ?_⟩
  rcases second.2 i member with before | inside
  · exact first.2 i before
  · exact .inr inside

namespace Eeprom93C46

variable {e : Eeprom93C46} {u32Addr u16Value uBehind : Nat}

theorem keeps_storeWord (e : Eeprom93C46) (inside : u32Addr < SIZE) :
    Keeps e.used (e.storeWord u32Addr u16Value).used := by
  unfold storeWord
  split
  · exact .cons inside
  · exact .refl e.used

theorem keeps_storeWords (indices : List Nat) (e : Eeprom93C46) (inside : ∀ i ∈ indices, i < SIZE) :
    Keeps e.used (indices.foldl (fun e i => e.storeWord i e.u16Word) e).used := by
  induction indices generalizing e with
  | nil => exact .refl e.used
  | cons i rest ih =>
    exact (keeps_storeWord e (inside i mem_cons_self)).trans
      (ih _ fun j member => inside j (mem_cons_of_mem _ member))

theorem keeps_opWriteAll (e : Eeprom93C46) : Keeps e.used e.opWriteAll.used := by
  have all := keeps_storeWords (range SIZE) e fun i => mem_range.mp
  unfold opWriteAll
  generalize (range SIZE).foldl (fun e i => e.storeWord i e.u16Word) e = stored at all ⊢
  exact all

theorem dataMsb_ne_zero : DATA_MSB ≠ 0 := by decide

theorem inv_opRead (op : e.eOp = .read) : Inv (e.opRead uBehind) where
  mask _ := dataMsb_ne_zero
  reading state := by cases state
  writing _ := op
  decoding state := by cases state
  address state := by cases state

theorem and_addrMask_lt (n : Nat) : n &&& ADDR_MASK < SIZE :=
  Nat.lt_of_le_of_lt Nat.and_le_right (by decide)

/-- Eight bits are an operation with an address in the array. -/
theorem opDecode_spec (e : Eeprom93C46) (small : e.u16Word < 256) :
    Inv (e.opDecode uBehind) ∧ Keeps e.used (e.opDecode uBehind).used := by
  have opcode : e.u16Word >>> 6 < 4 := by
    rw [Nat.shiftRight_eq_div_pow]
    omega
  unfold opDecode
  split
  case h_1 =>
    refine ⟨.of_not_shifting ?_, keeps_storeWord e (and_addrMask_lt _)⟩
    rintro (state | state) <;> cases state
  case h_2 =>
    exact ⟨inv_opRead rfl, .cons (and_addrMask_lt _)⟩
  case h_3 =>
    refine ⟨inv_readingDi rfl dataMsb_ne_zero Op.noConfusion (fun op => Op.noConfusion op) ?_,
      .refl e.used⟩
    exact fun _ => and_addrMask_lt _
  case h_4 zero =>
    have extended : e.u16Word >>> 4 < 4 := by
      rw [Nat.shiftRight_eq_div_pow] at zero ⊢
      omega
    split
    case h_1 =>
      refine ⟨.of_not_shifting ?_, .refl e.used⟩
      rintro (state | state) <;> cases state
    case h_2 =>
      exact ⟨inv_readingDi rfl dataMsb_ne_zero Op.noConfusion (fun op => Op.noConfusion op)
        (fun op => Op.noConfusion op), .refl e.used⟩
    case h_3 =>
      refine ⟨.of_not_shifting ?_, keeps_opWriteAll { e with u16Word := 0xffff }⟩
      rintro (state | state) <;> cases state
    case h_4 =>
      refine ⟨.of_not_shifting ?_, .refl e.used⟩
      rintro (state | state) <;> cases state
    case h_5 none0 none1 none2 none3 =>
      have different : e.u16Word >>> 4 ≠ 0 ∧ e.u16Word >>> 4 ≠ 1 ∧ e.u16Word >>> 4 ≠ 2 ∧
          e.u16Word >>> 4 ≠ 3 := ⟨none0, none1, none2, none3⟩
      omega
  case h_5 none3 none2 none1 none0 =>
    have different : e.u16Word >>> 6 ≠ 3 ∧ e.u16Word >>> 6 ≠ 2 ∧ e.u16Word >>> 6 ≠ 1 ∧
        e.u16Word >>> 6 ≠ 0 := ⟨none3, none2, none1, none0⟩
    omega

/-- The next bit; with the last one of a word read out the address must still be inside. -/
theorem nextBit_spec (state : Shifting e) (inv : e.eState = .readingDi → e.eOp ≠ .read ∧
      (e.eOp = .decode → e.u16Word < 256 ∧ e.u16Mask < 256) ∧ (e.eOp = .write → e.u16Addr < SIZE))
    (out : e.eState = .writingDo → e.eOp = .read) : Inv (e.nextBit uBehind) ∧
      ((e.eState = .writingDo → e.u16Mask >>> 1 = 0 → e.u16Addr < SIZE) →
        Keeps e.used (e.nextBit uBehind).used) := by
  unfold nextBit
  simp only
  split
  case isFalse more =>
    refine ⟨⟨fun _ => more, fun state => (inv state).1, out, fun state op => ?_,
      fun state => (inv state).2.2⟩, fun _ => .refl e.used⟩
    obtain ⟨word, mask⟩ := (inv state).2.1 op
    exact ⟨word, Nat.lt_of_le_of_lt (Nat.shiftRight_le _ _) mask⟩
  case isTrue last =>
    split
    case h_1 op =>
      have writing : e.eState = .writingDo := state.resolve_left fun state => (inv state).1 op
      exact ⟨inv_opRead op, fun inside => .cons (inside writing last)⟩
    case h_2 op =>
      have reading : e.eState = .readingDi := state.resolve_right fun state => by
        rw [out state] at op
        cases op
      refine ⟨.of_not_shifting ?_, fun _ =>
        keeps_storeWord { e with u16Mask := e.u16Mask >>> 1 } ((inv reading).2.2 op)⟩
      rintro (state | state) <;> cases state
    case h_3 op =>
      refine ⟨.of_not_shifting ?_, fun _ =>
        keeps_opWriteAll { e with u16Mask := e.u16Mask >>> 1 }⟩
      rintro (state | state) <;> cases state
    case h_4 op =>
      have reading : e.eState = .readingDi := state.resolve_right fun state => by
        rw [out state] at op
        cases op
      obtain ⟨decoded, keeps⟩ := @opDecode_spec uBehind { e with u16Mask := e.u16Mask >>> 1 }
        ((inv reading).2.1 op).1
      exact ⟨decoded, fun _ => keeps⟩

/-! ### Accesses to the wires -/

theorem inv_congr {e' : Eeprom93C46} (inv : Inv e) (state : e'.eState = e.eState)
    (mask : e'.u16Mask = e.u16Mask) (op : e'.eOp = e.eOp) (word : e'.u16Word = e.u16Word)
    (addr : e'.u16Addr = e.u16Addr) : Inv e' := by
  refine ⟨?_, ?_, ?_, ?_, ?_⟩
  · rw [Shifting, state, mask]
    exact inv.mask
  · rw [state, op]
    exact inv.reading
  · rw [state, op]
    exact inv.writing
  · rw [state, op, word, mask]
    exact inv.decoding
  · rw [state, op, addr]
    exact inv.address

theorem inv_latch (inv : Inv e) (u32Wires : BitVec 32) : Inv (e.latch u32Wires) :=
  inv_congr inv rfl rfl rfl rfl rfl

theorem inv_drive (inv : Inv e) (bit : Bool) : Inv (e.drive bit) :=
  inv_congr inv rfl rfl rfl rfl rfl

theorem clock_spec (inv : Inv e) (fDi : Bool) : Inv (e.clock fDi uBehind) ∧
      ((e.eState = .writingDo → e.u16Mask >>> 1 = 0 → e.u16Addr < SIZE) →
        Keeps e.used (e.clock fDi uBehind).used) := by
  unfold clock
  split
  case h_1 =>
    cases fDi with
    | false => exact ⟨inv, fun _ => .refl e.used⟩
    | true =>
      have empty : 0 < 256 ∧ OPADDR_MSB < 256 := by decide
      exact ⟨inv_readingDi rfl (show OPADDR_MSB ≠ 0 by decide) (fun op => Op.noConfusion op)
        (fun _ => empty) (fun op => Op.noConfusion op), fun _ => .refl e.used⟩
  case h_2 state =>
    cases fDi with
    | false =>
      exact nextBit_spec (.inl state)
        (fun _ => ⟨inv.reading state, inv.decoding state, inv.address state⟩) inv.writing
    | true =>
      refine @nextBit_spec { e with u16Word := e.u16Word ||| e.u16Mask } uBehind (.inl state)
        (fun _ => ⟨inv.reading state, fun op => ?_, inv.address state⟩) inv.writing
      obtain ⟨word, mask⟩ := inv.decoding state op
      exact ⟨@Nat.or_lt_two_pow e.u16Word e.u16Mask 8 word mask, mask⟩
  case h_3 state =>
    exact nextBit_spec (.inr state) (fun reading => ⟨inv.reading reading, inv.decoding reading,
      inv.address reading⟩) inv.writing
  case h_4 => exact ⟨inv, fun _ => .refl e.used⟩
  case h_5 => exact ⟨inv, fun _ => .refl e.used⟩

theorem deselect_spec (e : Eeprom93C46) : Inv e.deselect ∧ Keeps e.used e.deselect.used := by
  have idle : ∀ {e' : Eeprom93C46}, e'.eState ≠ .readingDi → e'.eState ≠ .writingDo → Inv e' :=
    fun reading writing => .of_not_shifting fun shifting => shifting.elim reading writing
  unfold deselect
  split
  case h_1 => exact ⟨idle State.noConfusion State.noConfusion, .refl e.used⟩
  case h_2 state =>
    refine ⟨idle ?_ ?_, .refl e.used⟩ <;> rw [state] <;> exact State.noConfusion
  case h_3 => exact ⟨idle State.noConfusion State.noConfusion, .refl e.used⟩
  case h_4 => exact ⟨idle State.noConfusion State.noConfusion, .refl e.used⟩
  case h_5 => exact ⟨idle State.noConfusion State.noConfusion, .refl e.used⟩

end Eeprom93C46

/-- The access ends the reading of a word while the address has run past the array. -/
def RunsOut (e : Eeprom93C46) (u32Wires : BitVec 32) : Prop :=
  wire u32Wires WIRES_CS = true ∧ e.rises u32Wires = true ∧ e.eState = .writingDo ∧
    e.u16Mask >>> 1 = 0 ∧ SIZE ≤ e.u16Addr

instance (e : Eeprom93C46) (u32Wires : BitVec 32) : Decidable (RunsOut e u32Wires) :=
  inferInstanceAs (Decidable (_ ∧ _))

/-- An access keeps the invariant, and uses an index outside exactly if it runs out. -/
theorem write_spec {e : Eeprom93C46} (inv : Inv e) (u32Wires : BitVec 32) (uBehind : Nat) :
    Inv (e.write u32Wires uBehind) ∧
      (¬ RunsOut e u32Wires → Keeps e.used (e.write u32Wires uBehind).used) := by
  unfold Eeprom93C46.write
  split
  case isTrue selected =>
    split
    case isTrue rises =>
      split
      case isTrue => exact ⟨inv, fun _ => .refl e.used⟩
      case isFalse =>
        obtain ⟨inv', keeps⟩ := @Eeprom93C46.clock_spec e uBehind inv (wire u32Wires WIRES_DI)
        refine ⟨Eeprom93C46.inv_latch inv' u32Wires, fun stays => keeps fun state last => ?_⟩
        exact Nat.not_le.mp fun past => stays ⟨selected, rises, state, last, past⟩
    case isFalse =>
      split
      case isTrue =>
        refine ⟨Eeprom93C46.inv_latch (Eeprom93C46.inv_drive (.of_not_shifting ?_) true) _,
          fun _ => .refl e.used⟩
        rintro (state | state) <;> cases state
      case isFalse => exact ⟨Eeprom93C46.inv_latch inv u32Wires, fun _ => .refl e.used⟩
  case isFalse =>
    obtain ⟨inv', keeps⟩ := Eeprom93C46.deselect_spec e
    exact ⟨Eeprom93C46.inv_latch inv' u32Wires, fun _ => keeps⟩

/-- The access that runs out uses the address. -/
theorem used_of_runsOut {e : Eeprom93C46} (inv : Inv e) {u32Wires : BitVec 32} (uBehind : Nat)
    (out : RunsOut e u32Wires) : (e.write u32Wires uBehind).used = e.u16Addr :: e.used := by
  obtain ⟨selected, rises, state, last, -⟩ := out
  have op := inv.writing state
  rw [Eeprom93C46.write, if_pos selected, if_pos rises, if_neg (by rw [state]; decide),
    Eeprom93C46.clock]
  simp only [state]
  rw [Eeprom93C46.nextBit]
  simp only [Eeprom93C46.drive, last, if_true, op]
  rfl

/-! ### Runs -/

/-- The wires are given values, and something lies behind the array. -/
def Step (e : Eeprom93C46) (access : BitVec 32 × Nat) (e' : Eeprom93C46) : Prop :=
  e.write access.1 access.2 = e'

/-- No access has run out. -/
def Stays (e : Eeprom93C46) (access : BitVec 32 × Nat) : Prop := ¬ RunsOut e access.1

instance (e : Eeprom93C46) (access : BitVec 32 × Nat) : Decidable (Stays e access) :=
  inferInstanceAs (Decidable (¬ _))

/-- Every index used lies in the array, and a machine that shifts has a bit to go. -/
def Inside (e : Eeprom93C46) : Prop :=
  (∀ i ∈ e.used, i < SIZE) ∧ (Shifting e → e.u16Mask ≠ 0)

theorem inv_init (e : Eeprom93C46) (pu16Initial : Nat → Nat) : Inv (e.init pu16Initial) := by
  refine .of_not_shifting ?_
  rintro (state | state) <;> cases state

section

variable {e e' : Eeprom93C46} {accesses : List (BitVec 32 × Nat)} (inv : Inv e)
  (run : Run Step e accesses e')

include inv run

/-- What has been used stays on the list. -/
theorem used_subset : e.used ⊆ e'.used := by
  induction run with
  | done => exact fun _ member => member
  | @next e _ _ access _ taken _ ih =>
    subst taken
    obtain ⟨inv', keeps⟩ := write_spec inv access.1 access.2
    refine fun i member => ih inv' ?_
    by_cases out : RunsOut e access.1
    · rw [used_of_runsOut inv _ out]
      exact mem_cons_of_mem _ member
    · exact (keeps out).1 member

theorem guarded_of_inside (inside : ∀ i ∈ e'.used, i < SIZE) :
    Run (Guarded Stays Step) e accesses e' := by
  induction run with
  | done => exact .done _
  | @next e _ _ access _ taken rest ih =>
    have taken' := taken
    subst taken
    have inv' := (write_spec inv access.1 access.2).1
    refine .next ⟨fun out => ?_, rfl⟩ (ih inv' inside)
    have used := used_subset inv' rest (by
      rw [used_of_runsOut inv _ out]
      exact mem_cons_self)
    exact absurd (inside _ used) (Nat.not_lt.mpr out.2.2.2.2)

end

/-- A run uses no index outside the array exactly if none of its accesses runs out. -/
theorem eeprom_inside_iff {e e' : Eeprom93C46} {pu16Initial : Nat → Nat}
    {accesses : List (BitVec 32 × Nat)} (run : Run Step (e.init pu16Initial) accesses e') :
    Inside e' ↔ Run (Guarded Stays Step) (e.init pu16Initial) accesses e' := by
  constructor
  · intro inside
    exact guarded_of_inside (inv_init e pu16Initial) run inside.1
  · intro guarded
    have both := guarded.invariant (fun e => Inv e ∧ ∀ i ∈ e.used, i < SIZE)
      (fun {e access e'} holds taken => ?_) ⟨inv_init e pu16Initial, fun _ member => nomatch member⟩
    · exact ⟨both.2, both.1.mask⟩
    · obtain ⟨inv, inside⟩ := holds
      obtain ⟨stays, rfl⟩ := taken
      obtain ⟨inv', keeps⟩ := write_spec inv access.1 access.2
      refine ⟨inv', fun i member => ?_⟩
      exact ((keeps stays).2 i member).elim (inside i) id

/-- Wires with chip select high. -/
def selected (fDi fSk : Bool) : BitVec 32 × Nat :=
  (WIRES_CS ||| (if fDi then WIRES_DI else 0) ||| if fSk then WIRES_SK else 0, 0)

/-- The accesses that clock bits in. -/
def clockIn (bits : List Bool) : List (BitVec 32 × Nat) :=
  bits.flatMap fun fDi => [selected fDi false, selected fDi true]

def blank : Eeprom93C46 :=
  { au16Data := fun _ => 0, eState := .standby, fWriteEnabled := false, u16Word := 0, u16Mask := 0,
    u16Addr := 0, u32InternalWires := 0, eOp := .read, used := [] }

/-- The command to read the word at 63. -/
def readLast : List Bool := true :: [true, false] ++ List.replicate 6 true

theorem exists_run_clockIn (bits : List Bool) (p : Eeprom93C46 → Prop) [DecidablePred p]
    (reached : (Run.follow (fun _ _ => True) (fun e access => some (e.write access.1 access.2))
      (blank.init fun _ => 0) (clockIn bits)).any (fun e => decide (p e)) = true) :
    ∃ e, Run Step (blank.init fun _ => 0) (clockIn bits) e ∧ p e :=
  (Run.exists_of_follow (fun _ _ => True) _ _ _ p reached).imp fun _ both =>
    ⟨both.1.mono fun taken => Option.some.inj taken.2, both.2⟩

theorem eeprom_inside_iff_readLast :
    ∃ e, Run Step (blank.init fun _ => 0) (clockIn readLast) e ∧ e.used = [63] ∧
      (Inside e ↔ Run (Guarded Stays Step) (blank.init fun _ => 0) (clockIn readLast) e) := by
  obtain ⟨e, run, used⟩ := exists_run_clockIn readLast (fun e => e.used = [63]) (by decide +kernel)
  exact ⟨e, run, used, eeprom_inside_iff run⟩

/-- Reading the last word to its end fetches the word behind it. -/
theorem exists_run_outside :
    ¬ ∀ (e e' : Eeprom93C46) (pu16Initial : Nat → Nat) (accesses : List (BitVec 32 × Nat)),
      Run Step (e.init pu16Initial) accesses e' → Inside e' := by
  intro all
  obtain ⟨e, run, used⟩ := exists_run_clockIn (readLast ++ replicate 16 false)
    (fun e => 64 ∈ e.used) (by decide +kernel)
  exact absurd ((all blank e _ _ run).1 64 used) (by decide)

/-! ### Write protection -/

namespace Eeprom93C46

variable {e : Eeprom93C46}

theorem storeWord_off (off : e.fWriteEnabled = false) (u32Addr u16Value : Nat) :
    e.storeWord u32Addr u16Value = { e with u16Mask := DATA_MSB } := by
  simp [storeWord, off]

theorem opWriteAll_off (off : e.fWriteEnabled = false) : e.opWriteAll.au16Data = e.au16Data := by
  unfold opWriteAll
  dsimp only
  generalize List.range SIZE = is
  induction is generalizing e with
  | nil => rfl
  | cons i is ih =>
    rw [List.foldl_cons, storeWord_off off]
    exact ih off

theorem nextBit_off (off : e.fWriteEnabled = false) (uBehind : Nat) :
    (e.nextBit uBehind).au16Data = e.au16Data := by
  unfold nextBit opDecode
  dsimp only
  repeat' split
  all_goals simp [opRead, opWrite, storeWord_off, opWriteAll_off, off]

theorem write_off (off : e.fWriteEnabled = false) (u32Wires : BitVec 32) (uBehind : Nat) :
    (e.write u32Wires uBehind).au16Data = e.au16Data := by
  unfold write deselect clock
  repeat' split
  all_goals simp [drive, latch, nextBit_off, off]

end Eeprom93C46

end VBox.Devices.Eeprom
