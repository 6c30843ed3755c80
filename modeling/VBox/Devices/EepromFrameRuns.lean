import VBox.Devices.EepromFrames
import Mathlib.Tactic.Ring

/-!
Frames on the wires do to the EEPROM what commands do to the memory.

Below a frame lie its segments, the start bit, operation code and address, and data. In each the
state of the machine is known from the number of edges so far, and an access without an edge keeps
it.
-/

namespace VBox.Devices.Eeprom

open List

/-! ### Segments -/

section Segments

variable {e : Eeprom93C46} {sk : Bool} {bs bs' : List Bool} {ws : List (BitVec 32 × Nat)}

theorem level_append (sk : Bool) (ws ws' : List (BitVec 32 × Nat)) :
    level sk (ws ++ ws') = level (level sk ws) ws' := by
  induction ws generalizing sk with
  | nil => rfl
  | cons w ws ih => rw [cons_append, level, level, ih]

/-- Accesses with some bits and others behind them are accesses with the ones and with the
others. -/
theorem exists_split (shape : edges sk ws = bs ++ bs') :
    ∃ first second, ws = first ++ second ∧ edges sk first = bs ∧
      edges (level sk first) second = bs' := by
  induction ws generalizing sk bs with
  | nil =>
    obtain ⟨rfl, rfl⟩ := append_eq_nil_iff.mp shape.symm
    exact ⟨[], [], rfl, rfl, rfl⟩
  | cons w ws ih =>
    rw [edges] at shape
    cases bs with
    | nil => exact ⟨[], w :: ws, rfl, rfl, by rw [level, edges]; exact shape⟩
    | cons b bs =>
      split at shape
      case isTrue rises =>
        obtain ⟨bit, later⟩ := cons.inj shape
        obtain ⟨first, second, rfl, one, two⟩ := ih later
        refine ⟨w :: first, second, rfl, ?_, two⟩
        rw [edges, if_pos rises, one, bit]
      case isFalse stays =>
        obtain ⟨first, second, rfl, one, two⟩ := ih shape
        refine ⟨w :: first, second, rfl, ?_, two⟩
        rw [edges, if_neg stays, one]

theorem play_append (e : Eeprom93C46) (ws ws' : List (BitVec 32 × Nat)) :
    play e (ws ++ ws') = play (play e ws) ws' := foldl_append

theorem samples_append (e : Eeprom93C46) (ws ws' : List (BitVec 32 × Nat)) :
    samples e (ws ++ ws') = samples e ws ++ samples (play e ws) ws' := by
  induction ws generalizing e with
  | nil => rfl
  | cons w ws ih =>
    rw [cons_append, samples, samples, ih]
    split <;> rfl

/-- A property that says where in a list of bits the machine is. -/
structure Tracks (bs : List Bool) (P : Nat → Eeprom93C46 → Prop) (R : Nat → Bool → Prop) :
    Prop where
  latch : ∀ {k e}, P k e → ∀ u32Wires, P k (e.latch u32Wires)
  rise : ∀ {k e}, P k e → e.eState ≠ .waitingCsRise
  fall : ∀ {k e}, P k e → k < bs.length → e.eState ≠ .waitingCsFall
  clock : ∀ {k b e}, P k e → bs[k]? = some b → ∀ uBehind,
    P (k + 1) (e.clock b uBehind) ∧ R k (wire (e.clock b uBehind).u32InternalWires WIRES_DO)

variable {P : Nat → Eeprom93C46 → Prop} {R : Nat → Bool → Prop}

theorem Tracks.tail {b : Bool} (tracks : Tracks (b :: bs) P R) :
    Tracks bs (fun k => P (k + 1)) (fun k => R (k + 1)) where
  latch := tracks.latch
  rise := tracks.rise
  fall holds below := tracks.fall holds (Nat.succ_lt_succ below)
  clock holds bit := tracks.clock holds bit

/-- An access with chip select high is a positive edge, or changes nothing but the wires. -/
theorem write_selected {w : BitVec 32 × Nat} (selected : wire w.1 WIRES_CS = true)
    (rise : e.eState ≠ .waitingCsRise) : e.write w.1 w.2 =
      if e.rises w.1 then
        if e.eState = .waitingCsFall then e
        else (e.clock (wire w.1 WIRES_DI) w.2).latch w.1
      else e.latch w.1 := by
  rw [Eeprom93C46.write, if_pos selected]
  simp only [rise, or_false, if_false]

/-- Over accesses with chip select high the property goes on to the last of the bits. -/
theorem Tracks.play (tracks : Tracks bs P R) (selected : Selected ws) (shape : edges sk ws = bs)
    (clockLevel : wire e.u32InternalWires WIRES_SK = sk) (start : P 0 e) :
    P bs.length (play e ws) ∧ wire (play e ws).u32InternalWires WIRES_SK = level sk ws ∧
      (samples e ws).length = bs.length ∧ ∀ k b, (samples e ws)[k]? = some b → R k b := by
  induction ws generalizing sk bs e P R with
  | nil =>
    rw [edges] at shape
    subst shape
    exact ⟨start, clockLevel, rfl, fun k b none => by cases none⟩
  | cons w ws ih =>
    have here := selected w mem_cons_self
    have later : Selected ws := fun w member => selected w (mem_cons_of_mem _ member)
    have access := write_selected here (tracks.rise start) (w := w)
    have rises : e.rises w.1 = (!sk && wire w.1 WIRES_SK) := by
      rw [Eeprom93C46.rises, clockLevel]
    rw [edges] at shape
    rw [samples, here, Bool.true_and, level]
    show P bs.length (Eeprom.play (e.write w.1 w.2) ws) ∧
      wire (Eeprom.play (e.write w.1 w.2) ws).u32InternalWires WIRES_SK = _ ∧ _
    cases edge : !sk && wire w.1 WIRES_SK with
    | false =>
      rw [edge] at shape rises
      rw [rises, if_neg Bool.false_ne_true] at access ⊢
      rw [access]
      exact ih tracks later shape (Eeprom93C46.latch_sk e w.1) (tracks.latch start w.1)
    | true =>
      rw [edge] at shape rises
      rw [if_pos rfl] at shape
      subst shape
      have falls := tracks.fall start (Nat.succ_pos _)
      rw [rises, if_pos rfl, if_neg falls] at access
      rw [rises, if_pos rfl, access]
      obtain ⟨next, sampled⟩ := tracks.clock start rfl w.2
      obtain ⟨final, levels, length, outs⟩ :=
        ih tracks.tail later rfl (Eeprom93C46.latch_sk _ w.1) (tracks.latch next w.1)
      refine ⟨final, levels, congrArg (· + 1) length, fun k b at_k => ?_⟩
      cases k with
      | zero =>
        rw [← Option.some.inj at_k, Eeprom93C46.read, Eeprom93C46.latch_do]
        exact sampled
      | succ k => exact outs k b at_k

end Segments

/-! ### Where the machine is in a frame -/

/-- The machine holds the memory. -/
structure Holds (m : Memory) (e : Eeprom93C46) : Prop where
  data : e.au16Data = m.data
  enabled : e.fWriteEnabled = m.enabled

/-- Between two frames, and before the start bit. -/
structure Idle (m : Memory) (e : Eeprom93C46) : Prop where
  state : e.eState = .standby
  holds : Holds m e

/-- Some of `n` bits are read. -/
structure Reading (m : Memory) (op : Op) (n addr : Nat) (bs : List Bool) (e : Eeprom93C46) :
    Prop where
  state : e.eState = .readingDi
  eOp : e.eOp = op
  mask : e.u16Mask = 2 ^ (n - 1 - bs.length)
  word : e.u16Word = val bs * 2 ^ (n - bs.length)
  addr : op = .write → e.u16Addr = addr
  holds : Holds m e

/-- All bits are read, and the operation comes next. -/
structure Full (m : Memory) (op : Op) (addr word : Nat) (e : Eeprom93C46) : Prop where
  state : e.eState = .readingDi
  eOp : e.eOp = op
  mask : e.u16Mask = 1
  word : e.u16Word = word
  addr : op = .write → e.u16Addr = addr
  holds : Holds m e

/-- Some bits are read out. -/
structure Writing (m : Memory) (addr k : Nat) (e : Eeprom93C46) : Prop where
  state : e.eState = .writingDo
  eOp : e.eOp = .read
  mask : e.u16Mask = 2 ^ (15 - k % 16)
  word : addr + k / 16 < SIZE → e.u16Word = m.data (addr + k / 16)
  addr : e.u16Addr = addr + k / 16 + 1
  holds : Holds m e

/-- The array was programmed, and chip select must fall. -/
structure Fallen (m : Memory) (e : Eeprom93C46) : Prop where
  state : e.eState = .waitingCsFall
  holds : Holds m e

/-- Chip select may fall. -/
structure Done (m : Memory) (e : Eeprom93C46) : Prop where
  fall : e.eState ≠ .waitingCsFall
  rise : e.eState ≠ .waitingCsRise
  holds : Holds m e

section Bits

variable {m : Memory} {e : Eeprom93C46} {op : Op} {n addr word uBehind : Nat} {bs : List Bool}

theorem Idle.done (idle : Idle m e) : Done m e where
  fall state := State.noConfusion (idle.state.symm.trans state)
  rise state := State.noConfusion (idle.state.symm.trans state)
  holds := idle.holds

theorem Reading.done (reading : Reading m op n addr bs e) : Done m e where
  fall state := State.noConfusion (reading.state.symm.trans state)
  rise state := State.noConfusion (reading.state.symm.trans state)
  holds := reading.holds

variable {k : Nat}

theorem Writing.done (writing : Writing m addr k e) : Done m e where
  fall state := State.noConfusion (writing.state.symm.trans state)
  rise state := State.noConfusion (writing.state.symm.trans state)
  holds := writing.holds

theorem Idle.latch (idle : Idle m e) (u32Wires : BitVec 32) : Idle m (e.latch u32Wires) :=
  ⟨idle.state, ⟨idle.holds.data, idle.holds.enabled⟩⟩

theorem Reading.latch (reading : Reading m op n addr bs e) (u32Wires : BitVec 32) :
    Reading m op n addr bs (e.latch u32Wires) :=
  ⟨reading.state, reading.eOp, reading.mask, reading.word, reading.addr,
    ⟨reading.holds.data, reading.holds.enabled⟩⟩

theorem Writing.latch (writing : Writing m addr k e) (u32Wires : BitVec 32) :
    Writing m addr k (e.latch u32Wires) :=
  ⟨writing.state, writing.eOp, writing.mask, writing.word, writing.addr,
    ⟨writing.holds.data, writing.holds.enabled⟩⟩

theorem Fallen.latch (fallen : Fallen m e) (u32Wires : BitVec 32) : Fallen m (e.latch u32Wires) :=
  ⟨fallen.state, ⟨fallen.holds.data, fallen.holds.enabled⟩⟩

theorem clock_standby (state : e.eState = .standby) : e.clock true uBehind =
    { e with eState := .readingDi, eOp := .decode, u16Mask := OPADDR_MSB, u16Word := 0 } := by
  unfold Eeprom93C46.clock
  split
  case h_1 => exact if_pos rfl
  all_goals
    rename_i other
    rw [state] at other
    cases other

theorem clock_readingDi (state : e.eState = .readingDi) (b : Bool) : e.clock b uBehind =
    { e with u16Word := if b then e.u16Word ||| e.u16Mask else e.u16Word }.nextBit uBehind := by
  unfold Eeprom93C46.clock
  split
  case h_2 => cases b <;> rfl
  all_goals
    rename_i other
    rw [state] at other
    cases other

theorem clock_writingDo (state : e.eState = .writingDo) (b : Bool) : e.clock b uBehind =
    (e.drive (e.u16Word &&& e.u16Mask != 0)).nextBit uBehind := by
  unfold Eeprom93C46.clock
  split
  case h_3 => rfl
  all_goals
    rename_i other
    rw [state] at other
    cases other

/-- The start bit. -/
theorem tracks_start (m : Memory) :
    Tracks [true] (fun k => if k = 0 then Idle m else Reading m .decode 8 0 [])
      fun _ _ => True where
  latch := by
    intro k e holds u32Wires
    by_cases first : k = 0
    · rw [if_pos first] at holds ⊢
      exact holds.latch u32Wires
    · rw [if_neg first] at holds ⊢
      exact holds.latch u32Wires
  rise := by
    intro k e holds
    split at holds
    · exact holds.done.rise
    · exact holds.done.rise
  fall := by
    intro k e holds _
    split at holds
    · exact holds.done.fall
    · exact holds.done.fall
  clock := by
    intro k b e holds bit uBehind
    refine ⟨?_, trivial⟩
    cases k with
    | succ k => cases bit
    | zero =>
      cases bit
      rw [if_pos rfl] at holds
      rw [if_neg (Nat.succ_ne_zero 0), clock_standby holds.state]
      exact ⟨rfl, rfl, rfl, rfl, fun op => Op.noConfusion op,
        ⟨holds.holds.data, holds.holds.enabled⟩⟩

/-- A bit is put behind those read. -/
theorem Reading.word_clock (reading : Reading m op n addr bs e) (more : bs.length < n) (b : Bool) :
    (if b then e.u16Word ||| e.u16Mask else e.u16Word) =
      val (bs ++ [b]) * 2 ^ (n - 1 - bs.length) := by
  obtain ⟨d, rfl⟩ := Nat.exists_eq_add_of_lt more
  have below : bs.length + d + 1 - 1 - bs.length = d := by omega
  have here : bs.length + d + 1 - bs.length = d + 1 := by omega
  rw [reading.word, reading.mask, below, here, val_append]
  have apart := Nat.two_pow_add_eq_or_of_lt (Nat.pow_lt_pow_succ (n := d) Nat.one_lt_two) (val bs)
  cases b with
  | false =>
    rw [if_neg Bool.false_ne_true, Nat.pow_succ]
    show _ = (2 * val bs + 0) * 2 ^ d
    ring
  | true =>
    rw [if_pos rfl, Nat.mul_comm (val bs), ← apart, Nat.pow_succ]
    show _ = (2 * val bs + 1) * 2 ^ d
    ring

/-- The bits of a word; with the last one comes the operation. -/
theorem tracks_reading {Result : Eeprom93C46 → Prop} (short : bs.length ≤ n)
    (latch : ∀ {e}, Result e → ∀ u32Wires, Result (e.latch u32Wires))
    (rise : ∀ {e}, Result e → e.eState ≠ .waitingCsRise)
    (perform : bs.length = n → ∀ {e}, Full m op addr (val bs) e → ∀ uBehind,
      Result (e.nextBit uBehind)) :
    Tracks bs (fun k => if k < n then Reading m op n addr (bs.take k) else Result)
      fun _ _ => True where
  latch := by
    intro k e holds u32Wires
    by_cases inside : k < n
    · rw [if_pos inside] at holds ⊢
      exact holds.latch u32Wires
    · rw [if_neg inside] at holds ⊢
      exact latch holds u32Wires
  rise := by
    intro k e holds
    split at holds
    · exact holds.done.rise
    · exact rise holds
  fall := by
    intro k e holds below
    rw [if_pos (Nat.lt_of_lt_of_le below short)] at holds
    exact holds.done.fall
  clock := by
    intro k b e reading bit uBehind
    refine ⟨?_, trivial⟩
    obtain ⟨below, here⟩ := List.getElem?_eq_some_iff.mp bit
    have inside : k < n := Nat.lt_of_lt_of_le below short
    rw [if_pos inside] at reading
    have length : (bs.take k).length = k := length_take_of_le (Nat.le_of_lt below)
    have longer : bs.take (k + 1) = bs.take k ++ [b] := by
      rw [take_succ_eq_append_getElem below, here]
    have word := reading.word_clock (length.symm ▸ inside) b
    have mask := reading.mask
    rw [length] at word mask
    rw [clock_readingDi reading.state, word]
    by_cases last : k + 1 = n
    · rw [if_neg (Nat.not_lt.mpr (Nat.le_of_eq last.symm))]
      have all : bs.length = n := Nat.le_antisymm short (last ▸ below)
      have zero : n - 1 - k = 0 := by omega
      have full : Full m op addr (val bs)
          { e with u16Word := val (bs.take k ++ [b]) * 2 ^ (n - 1 - k) } := by
        refine ⟨reading.state, reading.eOp, mask.trans (by rw [zero, Nat.pow_zero]), ?_,
          reading.addr, ⟨reading.holds.data, reading.holds.enabled⟩⟩
        show _ * 2 ^ (n - 1 - k) = _
        rw [zero, Nat.pow_zero, Nat.mul_one, ← longer, take_of_length_le (by omega)]
      exact perform all full uBehind
    · have more : k + 1 < n := Nat.lt_of_le_of_ne inside last
      have next : n - 1 - k = n - 1 - (k + 1) + 1 := by omega
      rw [if_pos more, longer]
      have shifted : e.u16Mask >>> 1 = 2 ^ (n - 1 - (k + 1)) := by
        rw [mask, next, Nat.pow_succ, Nat.shiftRight_one, Nat.mul_div_cancel _ Nat.two_pos]
      rw [Eeprom93C46.nextBit]
      simp only
      rw [if_neg (by rw [shifted]; exact Nat.ne_of_gt (Nat.two_pow_pos _))]
      refine ⟨reading.state, reading.eOp, ?_, ?_, reading.addr,
        ⟨reading.holds.data, reading.holds.enabled⟩⟩
      · rw [length_append, length]
        exact shifted
      · rw [length_append, length, length_singleton]
        show _ * 2 ^ (n - 1 - k) = _
        congr 2
        omega

/-- Bits of a word read out. -/
theorem tracks_writing (m : Memory) (addr : Nat) (inside : bs.length ≤ 16 * (SIZE - addr))
    (small : addr < SIZE) :
    Tracks bs (Writing m addr) fun k b => b = (m.data (addr + k / 16)).testBit (15 - k % 16) where
  latch writing := writing.latch
  rise writing := writing.done.rise
  fall writing _ := writing.done.fall
  clock := by
    intro k b e writing bit uBehind
    obtain ⟨below, -⟩ := List.getElem?_eq_some_iff.mp bit
    have near : addr + k / 16 < SIZE := by
      unfold SIZE at *
      omega
    rw [clock_writingDo writing.state]
    have out : (e.u16Word &&& e.u16Mask != 0) = (m.data (addr + k / 16)).testBit (15 - k % 16) := by
      rw [writing.word near, writing.mask, Nat.and_two_pow]
      cases (m.data (addr + k / 16)).testBit (15 - k % 16) with
      | false =>
        rw [Bool.toNat_false, Nat.zero_mul]
        rfl
      | true =>
        rw [Bool.toNat_true, Nat.one_mul]
        exact bne_iff_ne.mpr (Nat.ne_of_gt (Nat.two_pow_pos _))
    rw [out, Eeprom93C46.nextBit]
    simp only
    by_cases last : k % 16 = 15
    · have zero : e.u16Mask >>> 1 = 0 := by
        rw [writing.mask, last]
        rfl
      have op : (e.drive ((m.data (addr + k / 16)).testBit (15 - k % 16))).eOp = .read :=
        writing.eOp
      rw [if_pos (show (e.drive _).u16Mask >>> 1 = 0 from zero)]
      simp only [op]
      refine ⟨⟨rfl, rfl, ?_, ?_, ?_, ⟨writing.holds.data, writing.holds.enabled⟩⟩,
        Eeprom93C46.drive_do e _⟩
      · have first : (k + 1) % 16 = 0 := by omega
        rw [first]
        rfl
      · intro more
        have next : (k + 1) / 16 = k / 16 + 1 := by omega
        rw [next, ← Nat.add_assoc] at more ⊢
        show (if e.u16Addr < SIZE then e.au16Data e.u16Addr else uBehind) = _
        rw [writing.addr, if_pos more, writing.holds.data]
      · have next : (k + 1) / 16 = k / 16 + 1 := by omega
        show (e.u16Addr + 1) % 2 ^ 16 = _
        rw [writing.addr, next, Nat.mod_eq_of_lt (by unfold SIZE at near; omega)]
        rfl
    · have shifted : e.u16Mask >>> 1 = 2 ^ (15 - (k + 1) % 16) := by
        have next : 15 - k % 16 = 15 - (k + 1) % 16 + 1 := by omega
        rw [writing.mask, next, Nat.pow_succ, Nat.shiftRight_one, Nat.mul_div_cancel _ Nat.two_pos]
      have same : (k + 1) / 16 = k / 16 := by omega
      rw [if_neg (show ¬ (e.drive _).u16Mask >>> 1 = 0 by
        rw [show (e.drive _).u16Mask = e.u16Mask from rfl, shifted]
        exact Nat.ne_of_gt (Nat.two_pow_pos _))]
      refine ⟨⟨writing.state, writing.eOp, shifted, ?_, ?_,
        ⟨writing.holds.data, writing.holds.enabled⟩⟩, Eeprom93C46.drive_do e _⟩
      · rw [same]
        exact writing.word
      · rw [same]
        exact writing.addr

end Bits

/-! ### Operations -/

variable {c : Command}

section Operations

variable {m : Memory} {e : Eeprom93C46} {uBehind : Nat}

theorem storeWord_fields (e : Eeprom93C46) (u32Addr u16Value : Nat) :
    (e.storeWord u32Addr u16Value).au16Data =
        (if e.fWriteEnabled then Function.update e.au16Data u32Addr u16Value else e.au16Data) ∧
      (e.storeWord u32Addr u16Value).fWriteEnabled = e.fWriteEnabled ∧
      (e.storeWord u32Addr u16Value).u16Word = e.u16Word := by
  unfold Eeprom93C46.storeWord
  by_cases enabled : e.fWriteEnabled = true
  · simp only [if_pos enabled, and_self]
  · simp only [if_neg enabled, and_self]

theorem holds_storeWord (holds : Holds m e) (u32Addr u16Value : Nat) :
    Holds (m.store (· = u32Addr) u16Value) (e.storeWord u32Addr u16Value) := by
  obtain ⟨data, enabled, -⟩ := storeWord_fields e u32Addr u16Value
  refine ⟨?_, enabled.trans holds.enabled⟩
  funext i
  rw [data, holds.data, holds.enabled]
  show _ = if m.enabled = true ∧ i = u32Addr then u16Value else m.data i
  cases m.enabled with
  | false => simp
  | true => simp [Function.update_apply]

/-- The loop over all words. -/
theorem holds_storeWords (indices : List Nat) (holds : Holds m e) :
    Holds (m.store (· ∈ indices) e.u16Word)
      (indices.foldl (fun e i => e.storeWord i e.u16Word) e) := by
  induction indices generalizing m e with
  | nil =>
    refine ⟨holds.data.trans (funext fun i => ?_), holds.enabled⟩
    exact (if_neg fun both => not_mem_nil both.2).symm
  | cons i rest ih =>
    have all := ih (holds_storeWord holds i e.u16Word)
    rw [(storeWord_fields e i e.u16Word).2.2] at all
    refine ⟨all.data.trans (funext fun j => ?_), all.enabled⟩
    show (if m.enabled = true ∧ j ∈ rest then e.u16Word else
      if m.enabled = true ∧ j = i then e.u16Word else m.data j) =
        if m.enabled = true ∧ j ∈ i :: rest then e.u16Word else m.data j
    cases m.enabled <;> by_cases here : j = i <;> by_cases later : j ∈ rest <;> simp [here, later]

theorem fallen_opWrite (holds : Holds m e) :
    Fallen (m.store (· = e.u16Addr) e.u16Word) e.opWrite := by
  have stored := holds_storeWord holds e.u16Addr e.u16Word
  exact ⟨rfl, ⟨stored.data, stored.enabled⟩⟩

theorem fallen_opWriteAll (holds : Holds m e) :
    Fallen (m.store (· < SIZE) e.u16Word) e.opWriteAll := by
  have all := holds_storeWords (range SIZE) holds
  have same : m.store (· ∈ range SIZE) e.u16Word = m.store (· < SIZE) e.u16Word := by
    unfold Memory.store
    simp only [mem_range]
  rw [same] at all
  unfold Eeprom93C46.opWriteAll
  generalize (range SIZE).foldl (fun e i => e.storeWord i e.u16Word) e = stored at all ⊢
  exact ⟨rfl, ⟨all.data, all.enabled⟩⟩

/-- The machine behind operation code and address. -/
def Decoded (m : Memory) : Command → Eeprom93C46 → Prop
  | .read addr => Writing m addr 0
  | .write addr _ => Reading m .write 16 addr []
  | .writeAll _ _ => Reading m .writeAll 16 0 []
  | .erase addr => Fallen ((Command.erase addr).run m)
  | .eraseAll spare => Fallen ((Command.eraseAll spare).run m)
  | .enable spare => Idle ((Command.enable spare).run m)
  | .disable spare => Idle ((Command.disable spare).run m)

theorem nextBit_last (mask : e.u16Mask = 1) : e.nextBit uBehind =
    match e.eOp with
    | .read => { e with u16Mask := 0 }.opRead uBehind
    | .write => { e with u16Mask := 0 }.opWrite
    | .writeAll => { e with u16Mask := 0 }.opWriteAll
    | .decode => { e with u16Mask := 0 }.opDecode uBehind := by
  have zero : e.u16Mask >>> 1 = 0 := by
    rw [mask]
    rfl
  cases op : e.eOp <;> simp only [Eeprom93C46.nextBit, zero, op, if_true]

theorem nextBit_write (mask : e.u16Mask = 1) (op : e.eOp = .write) :
    e.nextBit uBehind = { e with u16Mask := 0, eOp := .write }.opWrite := by
  rw [nextBit_last mask, op]

theorem nextBit_writeAll (mask : e.u16Mask = 1) (op : e.eOp = .writeAll) :
    e.nextBit uBehind = { e with u16Mask := 0, eOp := .writeAll }.opWriteAll := by
  rw [nextBit_last mask, op]

theorem opAddr_shift (c : Command) : c.opAddr >>> 6 =
    match c with
    | .read _ => 2
    | .write _ _ => 1
    | .erase _ => 3
    | _ => 0 := by
  rw [Nat.shiftRight_eq_div_pow]
  cases c <;> simp only [Command.opAddr] <;> omega

theorem opAddr_and (c : Command) : c.opAddr &&& ADDR_MASK = c.opAddr % 64 :=
  Nat.and_two_pow_sub_one_eq_mod c.opAddr 6

theorem decoded_opDecode (full : Full m .decode 0 c.opAddr e) :
    Decoded m c (e.nextBit uBehind) := by
  have code : e.u16Word >>> 6 = _ := full.word ▸ opAddr_shift c
  have low : e.u16Word &&& ADDR_MASK = c.opAddr % 64 := full.word ▸ opAddr_and c
  rw [nextBit_last full.mask, full.eOp]
  show Decoded m c ({ e with u16Mask := 0, eOp := .decode }.opDecode uBehind)
  have holds : Holds m { e with u16Mask := 0, eOp := .decode } :=
    ⟨full.holds.data, full.holds.enabled⟩
  unfold Eeprom93C46.opDecode
  cases c with
  | read addr =>
    have here : (Command.read addr).opAddr % 64 = addr := by
      simp only [Command.opAddr]
      omega
    rw [here] at low
    simp only [code, low]
    refine ⟨rfl, rfl, rfl, fun _ => ?_, ?_, ⟨holds.data, holds.enabled⟩⟩
    · show (if addr.val < SIZE then e.au16Data addr.val else uBehind) = _
      rw [if_pos (show addr.val < SIZE from addr.isLt), full.holds.data]
      rfl
    · exact Nat.mod_eq_of_lt (Nat.lt_trans (Nat.succ_lt_succ addr.isLt) (by decide))
  | write addr value =>
    have here : (Command.write addr value).opAddr % 64 = addr := by
      simp only [Command.opAddr]
      omega
    rw [here] at low
    simp only [code, low]
    exact ⟨rfl, rfl, rfl, rfl, fun _ => rfl, ⟨holds.data, holds.enabled⟩⟩
  | erase addr =>
    have here : (Command.erase addr).opAddr % 64 = addr := by
      simp only [Command.opAddr]
      omega
    rw [here] at low
    simp only [code, low]
    have stored := holds_storeWord holds addr.val 0xffff
    exact ⟨rfl, ⟨stored.data, stored.enabled⟩⟩
  | writeAll spare value =>
    have extended : e.u16Word >>> 4 = 1 := by
      rw [full.word, Nat.shiftRight_eq_div_pow]
      simp only [Command.opAddr]
      omega
    simp only [code, extended]
    exact ⟨rfl, rfl, rfl, rfl, fun op => Op.noConfusion op, ⟨holds.data, holds.enabled⟩⟩
  | eraseAll spare =>
    have extended : e.u16Word >>> 4 = 2 := by
      rw [full.word, Nat.shiftRight_eq_div_pow]
      simp only [Command.opAddr]
      omega
    simp only [code, extended]
    have stored : Holds m { e with u16Mask := 0, eOp := .decode, u16Word := 0xffff } :=
      ⟨holds.data, holds.enabled⟩
    exact fallen_opWriteAll stored
  | enable spare =>
    have extended : e.u16Word >>> 4 = 3 := by
      rw [full.word, Nat.shiftRight_eq_div_pow]
      simp only [Command.opAddr]
      omega
    simp only [code, extended]
    exact ⟨rfl, ⟨holds.data, rfl⟩⟩
  | disable spare =>
    have extended : e.u16Word >>> 4 = 0 := by
      rw [full.word, Nat.shiftRight_eq_div_pow]
      simp only [Command.opAddr]
      omega
    simp only [code, extended]
    exact ⟨rfl, ⟨holds.data, rfl⟩⟩

theorem Decoded.latch (decoded : Decoded m c e) (u32Wires : BitVec 32) :
    Decoded m c (e.latch u32Wires) := by
  cases c with
  | read => exact Writing.latch decoded u32Wires
  | write => exact Reading.latch decoded u32Wires
  | erase => exact Fallen.latch decoded u32Wires
  | writeAll => exact Reading.latch decoded u32Wires
  | eraseAll => exact Fallen.latch decoded u32Wires
  | enable => exact Idle.latch decoded u32Wires
  | disable => exact Idle.latch decoded u32Wires

theorem Fallen.rise (fallen : Fallen m e) : e.eState ≠ .waitingCsRise := fun state =>
  State.noConfusion (fallen.state.symm.trans state)

theorem Decoded.rise (decoded : Decoded m c e) : e.eState ≠ .waitingCsRise := by
  cases c with
  | read => exact (Writing.done decoded).rise
  | write => exact (Reading.done decoded).rise
  | erase => exact Fallen.rise decoded
  | writeAll => exact (Reading.done decoded).rise
  | eraseAll => exact Fallen.rise decoded
  | enable => exact (Idle.done decoded).rise
  | disable => exact (Idle.done decoded).rise

/-- With no edge nothing happens. -/
theorem tracks_still {P : Eeprom93C46 → Prop}
    (latch : ∀ {e}, P e → ∀ u32Wires, P (e.latch u32Wires))
    (rise : ∀ {e}, P e → e.eState ≠ .waitingCsRise) : Tracks [] (fun _ => P) fun _ _ => True where
  latch := latch
  rise := rise
  fall _ below := absurd below (Nat.not_lt_zero _)
  clock _ bit := by cases bit

end Operations

/-! ### Data -/

section Data

variable {m : Memory} {e : Eeprom93C46} {sk : Bool} {ds : List Bool} {ws : List (BitVec 32 × Nat)}

/-- What a machine comes to over the data of a command. -/
structure Ends (m : Memory) (c : Command) (ds : List Bool) (e : Eeprom93C46) : Prop where
  programmed : c.payload.length ≤ ds.length → c.programs = true → Fallen (c.run m) e
  done : c.payload.length ≤ ds.length → c.programs = false → Done (c.run m) e
  broken : ds.length < c.payload.length → Done m e

/-- The sixteen bits of a word to be written. -/
theorem ends_word {op : Op} {addr : Nat} {value : Fin (2 ^ 16)}
    (payload : c.payload = msbFirst 16 value) (programs : c.programs = true)
    (reading : Reading m op 16 addr [] e) (prefixed : ds <+: c.payload) (selected : Selected ws)
    (shape : edges sk ws = ds) (clockLevel : wire e.u32InternalWires WIRES_SK = sk)
    (perform : ∀ {e}, Full m op addr value e → ∀ uBehind, Fallen (c.run m) (e.nextBit uBehind)) :
    Ends m c ds (play e ws) ∧ wire (play e ws).u32InternalWires WIRES_SK = level sk ws := by
  have length : c.payload.length = 16 := by rw [payload, length_msbFirst]
  have short : ds.length ≤ 16 := length ▸ prefixed.length_le
  have all : ds.length = 16 → ds = c.payload := fun full =>
    prefixed.eq_of_length (full.trans length.symm)
  have full : ds.length = 16 → ∀ {e}, Full m op addr (val ds) e → ∀ uBehind,
      Fallen (c.run m) (e.nextBit uBehind) := by
    intro complete e whole
    rw [all complete, payload, val_msbFirst, Nat.mod_eq_of_lt value.isLt] at whole
    exact perform whole
  obtain ⟨final, levels, -⟩ := (tracks_reading short Fallen.latch Fallen.rise full).play selected
    shape clockLevel reading
  refine ⟨⟨fun complete _ => ?_, fun _ none => ?_, fun fewer => ?_⟩, levels⟩
  · rwa [if_neg (Nat.not_lt.mpr (length ▸ complete))] at final
  · rw [programs] at none
    cases none
  · rw [if_pos (length ▸ fewer)] at final
    exact final.done

/-- A command without data is done. -/
theorem ends_nil {P : Eeprom93C46 → Prop} (payload : c.payload = []) (prefixed : ds <+: c.payload)
    (selected : Selected ws) (shape : edges sk ws = ds)
    (clockLevel : wire e.u32InternalWires WIRES_SK = sk) (start : P e)
    (latch : ∀ {e}, P e → ∀ u32Wires, P (e.latch u32Wires))
    (rise : ∀ {e}, P e → e.eState ≠ .waitingCsRise)
    (programmed : c.programs = true → ∀ {e}, P e → Fallen (c.run m) e)
    (done : c.programs = false → ∀ {e}, P e → Done (c.run m) e) :
    Ends m c ds (play e ws) ∧ wire (play e ws).u32InternalWires WIRES_SK = level sk ws := by
  have none : ds = [] := prefix_nil.mp (payload ▸ prefixed)
  subst none
  obtain ⟨final, levels, -⟩ := (tracks_still latch rise).play selected shape clockLevel start
  refine ⟨⟨fun _ yes => programmed yes final, fun _ no => done no final, fun fewer => ?_⟩, levels⟩
  exact absurd fewer (Nat.not_lt_zero _ ∘ (payload ▸ ·))

theorem ends_data (decoded : Decoded m c e) (prefixed : ds <+: c.payload) (selected : Selected ws)
    (shape : edges sk ws = ds) (clockLevel : wire e.u32InternalWires WIRES_SK = sk) :
    Ends m c ds (play e ws) ∧ wire (play e ws).u32InternalWires WIRES_SK = level sk ws := by
  cases c with
  | read addr =>
    exact ends_nil rfl prefixed selected shape clockLevel decoded Writing.latch
      (fun writing => writing.done.rise) (fun none => by cases none) fun _ _ writing =>
        Writing.done writing
  | write addr value =>
    refine ends_word rfl rfl decoded prefixed selected shape clockLevel fun {e} full uBehind => ?_
    have here : Holds m { e with u16Mask := 0, eOp := .write } :=
      ⟨full.holds.data, full.holds.enabled⟩
    have written := fallen_opWrite here
    simp only [full.addr rfl, full.word] at written
    rw [nextBit_write full.mask full.eOp]
    simp only [full.addr rfl, full.word]
    exact written
  | erase addr =>
    exact ends_nil rfl prefixed selected shape clockLevel decoded Fallen.latch Fallen.rise
      (fun _ _ fallen => fallen) fun none => by cases none
  | writeAll spare value =>
    refine ends_word rfl rfl decoded prefixed selected shape clockLevel fun {e} full uBehind => ?_
    have here : Holds m { e with u16Mask := 0, eOp := .writeAll } :=
      ⟨full.holds.data, full.holds.enabled⟩
    have written := fallen_opWriteAll here
    simp only [full.word] at written
    rw [nextBit_writeAll full.mask full.eOp]
    simp only [full.word]
    exact written
  | eraseAll spare =>
    exact ends_nil rfl prefixed selected shape clockLevel decoded Fallen.latch Fallen.rise
      (fun _ _ fallen => fallen) fun none => by cases none
  | enable spare =>
    exact ends_nil rfl prefixed selected shape clockLevel decoded Idle.latch
      (fun idle => idle.done.rise) (fun none => by cases none) fun _ _ idle => Idle.done idle
  | disable spare =>
    exact ends_nil rfl prefixed selected shape clockLevel decoded Idle.latch
      (fun idle => idle.done.rise) (fun none => by cases none) fun _ _ idle => Idle.done idle

/-- Behind a command to read the words come out. -/
theorem samples_data {addr : Fin 64} (decoded : Decoded m (.read addr) e)
    (inside : ds.length ≤ 16 * (64 - addr.val)) (selected : Selected ws)
    (shape : edges sk ws = ds) (clockLevel : wire e.u32InternalWires WIRES_SK = sk) :
    Done m (play e ws) ∧ wire (play e ws).u32InternalWires WIRES_SK = level sk ws ∧
      samples e ws = (range ds.length).map fun k =>
        (m.data (addr + k / 16)).testBit (15 - k % 16) := by
  obtain ⟨final, levels, length, outs⟩ :=
    (tracks_writing m addr inside addr.isLt).play selected shape clockLevel decoded
  refine ⟨final.done, levels, ext_getElem ?_ fun k below _ => ?_⟩
  · rw [length, length_map, length_range]
  · rw [getElem_map, getElem_range]
    exact outs k _ (getElem?_eq_getElem below)

/-- The start bit, operation code and address. -/
theorem decoded_header (idle : Idle m e) (selected : Selected ws)
    (shape : edges sk ws = true :: msbFirst 8 c.opAddr)
    (clockLevel : wire e.u32InternalWires WIRES_SK = sk) :
    Decoded m c (play e ws) ∧ wire (play e ws).u32InternalWires WIRES_SK = level sk ws ∧
      (samples e ws).length = 9 := by
  have split : edges sk ws = [true] ++ msbFirst 8 c.opAddr := shape
  obtain ⟨first, second, rfl, one, eight⟩ := exists_split split
  have selected' : Selected first ∧ Selected second :=
    ⟨fun w member => selected w (mem_append_left _ member),
      fun w member => selected w (mem_append_right _ member)⟩
  obtain ⟨start, levels, length, -⟩ := (tracks_start m).play selected'.1 one clockLevel idle
  have small : c.opAddr < 2 ^ 8 := by
    cases c <;> simp only [Command.opAddr] <;> omega
  have perform : (msbFirst 8 c.opAddr).length = 8 → ∀ {e},
      Full m .decode 0 (val (msbFirst 8 c.opAddr)) e → ∀ uBehind,
        Decoded m c (e.nextBit uBehind) := by
    intro _ e full uBehind
    rw [val_msbFirst, Nat.mod_eq_of_lt small] at full
    exact decoded_opDecode full
  obtain ⟨final, levels', length', -⟩ :=
    (tracks_reading (Nat.le_of_eq (length_msbFirst 8 _)) Decoded.latch Decoded.rise perform).play
      selected'.2 eight levels start
  rw [length_msbFirst] at final length'
  rw [play_append, level_append, samples_append, length_append, length, length']
  exact ⟨final, levels', rfl⟩

/-- A frame broken off before its address is complete. -/
theorem done_broken (idle : Idle m e) (short : ds.length < 8) (selected : Selected ws)
    (shape : edges sk ws = true :: ds) (clockLevel : wire e.u32InternalWires WIRES_SK = sk) :
    Done m (play e ws) ∧ wire (play e ws).u32InternalWires WIRES_SK = level sk ws ∧
      (samples e ws).length = ds.length + 1 := by
  have split : edges sk ws = [true] ++ ds := shape
  obtain ⟨first, second, rfl, one, rest⟩ := exists_split split
  have selected' : Selected first ∧ Selected second :=
    ⟨fun w member => selected w (mem_append_left _ member),
      fun w member => selected w (mem_append_right _ member)⟩
  obtain ⟨start, levels, length, -⟩ := (tracks_start m).play selected'.1 one clockLevel idle
  have latch : ∀ {e}, Done m e → ∀ u32Wires, Done m (e.latch u32Wires) := fun done _ =>
    ⟨done.fall, done.rise, ⟨done.holds.data, done.holds.enabled⟩⟩
  obtain ⟨final, levels', length', -⟩ :=
    (tracks_reading (Nat.le_of_lt short) latch Done.rise fun full =>
      absurd full (Nat.ne_of_lt short)).play selected'.2 rest levels start
  rw [if_pos short] at final
  rw [play_append, level_append, samples_append, length_append, length, length']
  exact ⟨final.done, levels', Nat.add_comm _ _⟩

end Data

end VBox.Devices.Eeprom
