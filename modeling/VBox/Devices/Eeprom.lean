import Mathlib.Algebra.Group.Nat.Defs
import Mathlib.Logic.Function.Basic

/-!
The 93C46 EEPROM behind its four wires.

An index into the array that is used is put on a list; what is read behind the array comes from
outside, with each access to the wires.
-/

namespace VBox.Devices.Eeprom

def SIZE : Nat := 64
def DATA_MSB : Nat := 0x8000
def ADDR_MASK : Nat := 0x3f
def OPADDR_MSB : Nat := 0x80

def WIRES_SK : BitVec 32 := 0x1
def WIRES_CS : BitVec 32 := 0x2
def WIRES_DI : BitVec 32 := 0x4
def WIRES_DO : BitVec 32 := 0x8

/-- `OP`. -/
inductive Op where
  | read
  | write
  | writeAll
  | decode
  deriving DecidableEq, Repr

/-- `State`. -/
inductive State where
  | standby
  | readingDi
  | writingDo
  | waitingCsFall
  | waitingCsRise
  deriving DecidableEq, Repr

/-- `EEPROM93C46`. -/
structure Eeprom93C46 where
  au16Data : Nat → Nat
  eState : State
  fWriteEnabled : Bool
  u16Word : Nat
  u16Mask : Nat
  u16Addr : Nat
  u32InternalWires : BitVec 32
  eOp : Op
  /-- The indices used so far, the last one first. -/
  used : List Nat

/-- A wire is high. -/
def wire (u32Wires which : BitVec 32) : Bool := u32Wires &&& which != 0

namespace Eeprom93C46

/-- `init`; the other fields keep what they hold. -/
def init (e : Eeprom93C46) (pu16Initial : Nat → Nat) : Eeprom93C46 :=
  { e with
    au16Data := pu16Initial
    fWriteEnabled := false
    u32InternalWires := 0
    eState := .standby
    used := [] }

/-- `storeWord`. -/
def storeWord (e : Eeprom93C46) (u32Addr u16Value : Nat) : Eeprom93C46 :=
  let e :=
    if e.fWriteEnabled then
      { e with
        au16Data := Function.update e.au16Data u32Addr u16Value
        used := u32Addr :: e.used }
    else e
  { e with u16Mask := DATA_MSB }

/-- `opRead`. -/
def opRead (e : Eeprom93C46) (uBehind : Nat) : Eeprom93C46 :=
  { e with
    u16Word := if e.u16Addr < SIZE then e.au16Data e.u16Addr else uBehind
    used := e.u16Addr :: e.used
    u16Addr := (e.u16Addr + 1) % 2 ^ 16
    u16Mask := DATA_MSB
    eState := .writingDo }

/-- `opWrite`. -/
def opWrite (e : Eeprom93C46) : Eeprom93C46 :=
  { e.storeWord e.u16Addr e.u16Word with eState := .waitingCsFall }

/-- `opWriteAll`. -/
def opWriteAll (e : Eeprom93C46) : Eeprom93C46 :=
  { (List.range SIZE).foldl (fun e i => e.storeWord i e.u16Word) e with eState := .waitingCsFall }

/-- `opDecode`. -/
def opDecode (e : Eeprom93C46) (uBehind : Nat) : Eeprom93C46 :=
  match e.u16Word >>> 6 with
  | 3 => { e.storeWord (e.u16Word &&& ADDR_MASK) 0xffff with eState := .waitingCsFall }
  | 2 => { e with eOp := .read, u16Addr := e.u16Word &&& ADDR_MASK }.opRead uBehind
  | 1 =>
    { e with
      eOp := .write
      u16Addr := e.u16Word &&& ADDR_MASK
      u16Word := 0
      u16Mask := DATA_MSB
      eState := .readingDi }
  | 0 =>
    match e.u16Word >>> 4 with
    | 0 => { e with fWriteEnabled := false, eState := .standby }
    | 1 => { e with eOp := .writeAll, u16Word := 0, u16Mask := DATA_MSB, eState := .readingDi }
    | 2 => { e with u16Word := 0xffff }.opWriteAll
    | 3 => { e with fWriteEnabled := true, eState := .standby }
    | _ => e
  | _ => e

/-- `DO` set to a bit. -/
def drive (e : Eeprom93C46) (bit : Bool) : Eeprom93C46 :=
  { e with
    u32InternalWires :=
      if bit then e.u32InternalWires ||| WIRES_DO else e.u32InternalWires &&& ~~~WIRES_DO }

/-- The next bit, and the operation behind the last one. -/
def nextBit (e : Eeprom93C46) (uBehind : Nat) : Eeprom93C46 :=
  let e := { e with u16Mask := e.u16Mask >>> 1 }
  if e.u16Mask = 0 then
    match e.eOp with
    | .read => e.opRead uBehind
    | .write => e.opWrite
    | .writeAll => e.opWriteAll
    | .decode => e.opDecode uBehind
  else e

/-- A positive edge of the clock, where the machine takes notice of it. -/
def clock (e : Eeprom93C46) (fDi : Bool) (uBehind : Nat) : Eeprom93C46 :=
  match e.eState with
  | .standby =>
    if fDi then
      { e with eState := .readingDi, eOp := .decode, u16Mask := OPADDR_MSB, u16Word := 0 }
    else e
  | .readingDi =>
    (if fDi then { e with u16Word := e.u16Word ||| e.u16Mask } else e).nextBit uBehind
  | .writingDo => (e.drive (e.u16Word &&& e.u16Mask != 0)).nextBit uBehind
  | .waitingCsFall => e
  | .waitingCsRise => e

/-- Chip select is low. -/
def deselect (e : Eeprom93C46) : Eeprom93C46 :=
  match e.eState with
  | .waitingCsFall => { e with eState := .waitingCsRise }.drive false
  | .waitingCsRise => e
  | .readingDi => { e with eState := .standby }.drive false
  | .standby => { e with eState := .standby }
  | .writingDo => { e with eState := .standby }

/-- Keep the wires, all but `DO`. -/
def latch (e : Eeprom93C46) (u32Wires : BitVec 32) : Eeprom93C46 :=
  { e with
    u32InternalWires := (e.u32InternalWires &&& WIRES_DO) ||| (u32Wires &&& ~~~WIRES_DO) }

/-- The write is a positive edge of the clock. -/
def rises (e : Eeprom93C46) (u32Wires : BitVec 32) : Bool :=
  !wire e.u32InternalWires WIRES_SK && wire u32Wires WIRES_SK

/-- `write`. -/
def write (e : Eeprom93C46) (u32Wires : BitVec 32) (uBehind : Nat) : Eeprom93C46 :=
  if wire u32Wires WIRES_CS then
    if e.rises u32Wires then
      -- in the two waiting states the function returns here
      if e.eState = .waitingCsFall ∨ e.eState = .waitingCsRise then e
      else (e.clock (wire u32Wires WIRES_DI) uBehind).latch u32Wires
    else if e.eState = .waitingCsRise then
      ({ e with eState := .standby }.drive true).latch u32Wires
    else e.latch u32Wires
  else e.deselect.latch u32Wires

/-- `read`. -/
def read (e : Eeprom93C46) : BitVec 32 := e.u32InternalWires

end Eeprom93C46

end VBox.Devices.Eeprom
