import VBox.Devices.Eeprom
import Mathlib.Data.Nat.Bitwise
import Mathlib.Data.List.Induction

/-!
Commands of the EEPROM, framed on its wires.

While chip select is high nothing but the positive edges of the clock moves the machine; so a frame
is the list of bits on `DI` at these edges, whatever else the wires do in between.
-/

namespace VBox.Devices.Eeprom

/-! ### Wires -/

theorem wire_twoPow (u32Wires : BitVec 32) (i : Nat) (small : i < 32) :
    wire u32Wires (BitVec.twoPow 32 i) = u32Wires.getLsbD i := by
  rw [wire, BitVec.and_twoPow]
  cases u32Wires.getLsbD i with
  | false => rfl
  | true =>
    rw [if_pos rfl, bne_iff_ne]
    intro zero
    have bit := congrArg (BitVec.getLsbD · i) zero
    simp [small] at bit

theorem wire_sk (u32Wires : BitVec 32) : wire u32Wires WIRES_SK = u32Wires.getLsbD 0 :=
  wire_twoPow u32Wires 0 (by decide)

theorem wire_do (u32Wires : BitVec 32) : wire u32Wires WIRES_DO = u32Wires.getLsbD 3 :=
  wire_twoPow u32Wires 3 (by decide)

namespace Eeprom93C46

variable (e : Eeprom93C46) (u32Wires : BitVec 32)

@[simp] theorem latch_sk :
    wire (e.latch u32Wires).u32InternalWires WIRES_SK = wire u32Wires WIRES_SK := by
  rw [wire_sk, wire_sk, latch, BitVec.getLsbD_or, BitVec.getLsbD_and, BitVec.getLsbD_and,
    BitVec.getLsbD_not]
  simp [WIRES_DO]

@[simp] theorem latch_do :
    wire (e.latch u32Wires).u32InternalWires WIRES_DO = wire e.u32InternalWires WIRES_DO := by
  rw [wire_do, wire_do, latch, BitVec.getLsbD_or, BitVec.getLsbD_and, BitVec.getLsbD_and,
    BitVec.getLsbD_not]
  simp [WIRES_DO]

@[simp] theorem drive_do (bit : Bool) : wire (e.drive bit).u32InternalWires WIRES_DO = bit := by
  rw [wire_do, drive]
  cases bit <;> simp [WIRES_DO]

end Eeprom93C46

/-! ### Bits -/

/-- The number a list of bits stands for, the most significant bit first. -/
def val (bs : List Bool) : Nat := bs.foldl (fun n b => 2 * n + b.toNat) 0

theorem val_append (bs : List Bool) (b : Bool) : val (bs ++ [b]) = 2 * val bs + b.toNat := by
  rw [val, List.foldl_append]
  rfl

/-- The bits of a number, the most significant one first. -/
def msbFirst : Nat → Nat → List Bool
  | 0, _ => []
  | width + 1, n => msbFirst width (n / 2) ++ [n % 2 == 1]

theorem length_msbFirst (width n : Nat) : (msbFirst width n).length = width := by
  induction width generalizing n with
  | zero => rfl
  | succ width ih => rw [msbFirst, List.length_append, ih, List.length_singleton]

theorem val_msbFirst (width n : Nat) : val (msbFirst width n) = n % 2 ^ width := by
  induction width generalizing n with
  | zero => exact (Nat.mod_one n).symm
  | succ width ih =>
    have bit : (n % 2 == 1).toNat = n % 2 := by
      rcases Nat.mod_two_eq_zero_or_one n with even | odd
      · rw [even]
        rfl
      · rw [odd]
        rfl
    rw [msbFirst, val_append, ih, bit, Nat.pow_succ', Nat.mod_mul, Nat.add_comm]

/-! ### The abstract memory -/

structure Memory where
  data : Nat → Nat
  enabled : Bool

/-- The commands; `spare` are the address bits a command does not use. -/
inductive Command where
  | read (addr : Fin 64)
  | write (addr : Fin 64) (value : Fin (2 ^ 16))
  | erase (addr : Fin 64)
  | writeAll (spare : Fin 16) (value : Fin (2 ^ 16))
  | eraseAll (spare : Fin 16)
  | enable (spare : Fin 16)
  | disable (spare : Fin 16)

namespace Memory

/-- Store into the words chosen, if writing is enabled. -/
def store (m : Memory) (which : Nat → Prop) [DecidablePred which] (value : Nat) : Memory :=
  { m with data := fun i => if m.enabled = true ∧ which i then value else m.data i }

end Memory

namespace Command

/-- What a command does to the memory. -/
def run (m : Memory) : Command → Memory
  | .read _ => m
  | .write addr value => m.store (· = addr.val) value
  | .erase addr => m.store (· = addr.val) 0xffff
  | .writeAll _ value => m.store (· < SIZE) value
  | .eraseAll _ => m.store (· < SIZE) 0xffff
  | .enable _ => { m with enabled := true }
  | .disable _ => { m with enabled := false }

/-- Operation code and address. -/
def opAddr : Command → Nat
  | .read addr => 0x80 + addr
  | .write addr _ => 0x40 + addr
  | .erase addr => 0xc0 + addr
  | .writeAll spare _ => 0x10 + spare
  | .eraseAll spare => 0x20 + spare
  | .enable spare => 0x30 + spare
  | .disable spare => spare

/-- The data that follows. -/
def payload : Command → List Bool
  | .write _ value => msbFirst 16 value
  | .writeAll _ value => msbFirst 16 value
  | _ => []

/-- All bits of a command: the start bit, operation code and address, and data. -/
def bits (c : Command) : List Bool := true :: (msbFirst 8 c.opAddr ++ c.payload)

/-- The command programs the array, so that a ready handshake follows. -/
def programs : Command → Bool
  | .write _ _ => true
  | .erase _ => true
  | .writeAll _ _ => true
  | .eraseAll _ => true
  | _ => false

end Command

/-- A command with the bits that are clocked while chip select is high: all of its bits, behind
which a read goes on, or only the first ones. -/
structure Frame where
  command : Command
  bits : List Bool

namespace Frame

variable (f : Frame)

/-- The command has been clocked in to its last bit. -/
def complete : Bool := f.command.bits.length ≤ f.bits.length

/-- The bits are those of the command, or some of the first of them, or those of a command to read
with as many edges behind it as there are bits up to the end of the array. -/
def Ok : Prop :=
  f.bits <+: f.command.bits ∨
    ∃ addr clocked, f.command = .read addr ∧ f.bits = f.command.bits ++ clocked ∧
      clocked.length ≤ 16 * (64 - addr.val)

/-- A frame broken off changes nothing. -/
def effect (m : Memory) : Memory := if f.complete then f.command.run m else m

/-- The bits a frame reads. -/
def output (m : Memory) : List Bool :=
  match f.command with
  | .read addr => (List.range (f.bits.length - 9)).map fun k =>
      (m.data (addr + k / 16)).testBit (15 - k % 16)
  | _ => []

end Frame

/-! ### Frames on the wires -/

/-- The bits on `DI` at the positive edges of the clock, which was at a level before. -/
def edges : Bool → List (BitVec 32 × Nat) → List Bool
  | _, [] => []
  | sk, w :: ws =>
    if !sk && wire w.1 WIRES_SK then wire w.1 WIRES_DI :: edges (wire w.1 WIRES_SK) ws
    else edges (wire w.1 WIRES_SK) ws

/-- The level of the clock afterwards. -/
def level : Bool → List (BitVec 32 × Nat) → Bool
  | sk, [] => sk
  | _, w :: ws => level (wire w.1 WIRES_SK) ws

/-- Chip select is high, or low, all the time. -/
def Selected (ws : List (BitVec 32 × Nat)) : Prop := ∀ w ∈ ws, wire w.1 WIRES_CS = true
def Deselected (ws : List (BitVec 32 × Nat)) : Prop :=
  ws ≠ [] ∧ ∀ w ∈ ws, wire w.1 WIRES_CS = false

/-- The ready handshake: chip select is raised and lowered with no edge in between. -/
def Handshake (sk : Bool) (ws : List (BitVec 32 × Nat)) : Prop :=
  ∃ ready low, ws = ready ++ low ∧ ready ≠ [] ∧ Selected ready ∧ edges sk ready = [] ∧
    Deselected low

/-- The accesses bring a frame onto the wires. -/
def Carries (sk : Bool) (f : Frame) (ws : List (BitVec 32 × Nat)) : Prop :=
  ∃ high low rest, ws = high ++ (low ++ rest) ∧ Selected high ∧ edges sk high = f.bits ∧
    Deselected low ∧
    if f.complete && f.command.programs then Handshake (level sk (high ++ low)) rest
    else rest = []

/-- Frames with the accesses that bring them onto the wires, one after the other. -/
inductive Session : Bool → List (Frame × List (BitVec 32 × Nat)) → Prop where
  | nil (sk : Bool) : Session sk []
  | cons {sk : Bool} {f : Frame} {ws : List (BitVec 32 × Nat)}
      {rest : List (Frame × List (BitVec 32 × Nat))} :
      f.Ok → Carries sk f ws → Session (level sk ws) rest → Session sk ((f, ws) :: rest)

/-- The machine after a list of accesses. -/
def play (e : Eeprom93C46) (ws : List (BitVec 32 × Nat)) : Eeprom93C46 :=
  ws.foldl (fun e w => e.write w.1 w.2) e

/-- `DO` after each positive edge of the clock with chip select high. -/
def samples : Eeprom93C46 → List (BitVec 32 × Nat) → List Bool
  | _, [] => []
  | e, w :: ws =>
    if wire w.1 WIRES_CS && e.rises w.1 then
      wire (e.write w.1 w.2).read WIRES_DO :: samples (e.write w.1 w.2) ws
    else samples (e.write w.1 w.2) ws

/-- What is seen of a frame: the bits behind a command to read. -/
def seen (e : Eeprom93C46) (f : Frame) (ws : List (BitVec 32 × Nat)) : List Bool :=
  match f.command with
  | .read _ => (samples e ws).drop 9
  | _ => []

end VBox.Devices.Eeprom
