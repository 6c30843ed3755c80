import Mathlib.Algebra.GroupWithZero.Nat

/-!
The two cascaded interrupt controllers.

The flag is the last of `pfnSetInterruptFF` and `pfnClearInterruptFF` called. The tags that trace
where an interrupt came from are left out.
-/

namespace VBox.Devices.Pic

/-- A controller has eight lines. -/
scoped instance neZero_eight : NeZero 8 := ⟨by decide⟩

/-- One of the two entries of `aPics`. -/
inductive Which where
  | master
  | slave
  deriving DecidableEq, Repr

def Which.index : Which → Nat
  | .master => 0
  | .slave => 1

/-- `PICSTATE`. -/
structure PicState where
  lastIrr : BitVec 8
  irr : BitVec 8
  imr : BitVec 8
  isr : BitVec 8
  priorityAdd : Nat
  irqBase : BitVec 8
  readRegSelect : Bool
  poll : Bool
  specialMask : Bool
  initState : Nat
  autoEoi : Bool
  rotateOnAutoEoi : Bool
  specialFullyNestedMode : Bool
  init4 : Bool
  elcr : BitVec 8
  elcrMask : BitVec 8
  idxPic : Nat
  deriving DecidableEq

/-- `DEVPIC` with the interrupt force flag. -/
structure DevPic where
  master : PicState
  slave : PicState
  flag : Bool
  deriving DecidableEq

def DevPic.get (p : DevPic) : Which → PicState
  | .master => p.master
  | .slave => p.slave

def DevPic.set (p : DevPic) (which : Which) (pic : PicState) : DevPic :=
  match which with
  | .master => { p with master := pic }
  | .slave => { p with slave := pic }

/-- `reg |= 1 << irq`. -/
def setLine (reg : BitVec 8) (irq : Fin 8) : BitVec 8 := reg ||| (1#8 <<< irq.val)

/-- `reg &= ~(1 << irq)`. -/
def clearLine (reg : BitVec 8) (irq : Fin 8) : BitVec 8 := reg &&& ~~~(1#8 <<< irq.val)

/-- The line of a register. -/
def line (reg : BitVec 8) (irq : Fin 8) : Bool := reg.getLsbD irq.val

/-- The line that has a priority. -/
def PicState.lineOf (pic : PicState) (priority : Nat) : Fin 8 :=
  ⟨(priority + pic.priorityAdd) % 8, Nat.mod_lt _ (by decide)⟩

/-- `pic_set_irq1`. -/
def picSetIrq1 (pic : PicState) (irq : Fin 8) (level : Bool) : PicState :=
  if line pic.elcr irq then
    if level then
      { pic with irr := setLine pic.irr irq, lastIrr := setLine pic.lastIrr irq }
    else
      { pic with irr := clearLine pic.irr irq, lastIrr := clearLine pic.lastIrr irq }
  else if level then
    { pic with
      irr := if line pic.lastIrr irq then pic.irr else setLine pic.irr irq
      lastIrr := setLine pic.lastIrr irq }
  else
    { pic with irr := clearLine pic.irr irq, lastIrr := clearLine pic.lastIrr irq }

/-- `get_priority`: the first priority whose line is in the mask, 8 if there is none. -/
def getPriority (pic : PicState) (mask : BitVec 8) : Nat :=
  ((List.range 8).find? fun priority => line mask (pic.lineOf priority)).getD 8

/-- `pic_get_irq`, with no interrupt for -1. -/
def picGetIrq (pic : PicState) : Option (Fin 8) :=
  let priority := getPriority pic (pic.irr &&& ~~~pic.imr)
  if priority = 8 then none
  else
    let mask := if pic.specialFullyNestedMode && pic.idxPic == 0 then clearLine pic.isr 2
      else pic.isr
    if priority < getPriority pic mask then some (pic.lineOf priority) else none

/-- `pic_update_irq`. The call of itself at the end is never reached (`picUpdateIrq_eq`); the
number bounds its depth. -/
def picUpdateIrq : Nat → DevPic → DevPic
  | 0, p => p
  | depth + 1, p =>
    let irq2 := picGetIrq p.slave
    let p := { p with master := picSetIrq1 p.master 2 irq2.isSome }
    match picGetIrq p.master with
    | some irq =>
      if irq ≠ 2 ∨ irq2 ≠ none then { p with flag := true }
      else
        picUpdateIrq depth
          { p with master := { p.master with irr := clearLine p.master.irr 2 }, flag := false }
    | none => { p with flag := false }

/-- `pic_update_irq` as it is called. -/
def update (p : DevPic) : DevPic := picUpdateIrq 2 p

/-- `pic_update_imr`. -/
def picUpdateImr (p : DevPic) (which : Which) (val : BitVec 8) : DevPic :=
  let active := if picGetIrq p.master = some 2 then Which.slave else .master
  let irq := picGetIrq (p.get active)
  let p := p.set which { p.get which with imr := val }
  match irq with
  | none => p
  | some irq =>
    if line (p.get active).imr irq then
      match active with
      | .slave =>
        { p with master := { p.master with irr := clearLine p.master.irr 2 }, flag := false }
      | .master => { p with flag := false }
    else p

/-- `picSetIrq`: a flip-flop lowers the line before it raises it. -/
def picSetIrq (p : DevPic) (iIrq : Fin 16) (iLevel : Nat) : DevPic :=
  let which := if iIrq.val < 8 then Which.master else .slave
  let irq : Fin 8 := ⟨iIrq.val % 8, Nat.mod_lt _ (by decide)⟩
  let p :=
    if iLevel &&& 3 = 3 then update (p.set which (picSetIrq1 (p.get which) irq false)) else p
  update (p.set which (picSetIrq1 (p.get which) irq (iLevel &&& 1 = 1)))

/-- `pic_intack`. -/
def picIntack (pic : PicState) (irq : Fin 8) : PicState :=
  let pic :=
    if pic.autoEoi then
      if pic.rotateOnAutoEoi then { pic with priorityAdd := (irq.val + 1) % 8 } else pic
    else { pic with isr := setLine pic.isr irq }
  if line pic.elcr irq then pic else { pic with irr := clearLine pic.irr irq }

/-- `picGetInterrupt`: the interrupt number, and the state after the acknowledgement. -/
def picGetInterrupt (p : DevPic) : Nat × DevPic :=
  match picGetIrq p.master with
  | some irq =>
    let p := { p with master := picIntack p.master irq }
    if irq = 2 then
      match picGetIrq p.slave with
      | some irq2 =>
        (p.slave.irqBase.toNat + irq2.val,
          update { p with slave := picIntack p.slave irq2 })
      | none => (p.slave.irqBase.toNat + 7, update p)
    else (p.master.irqBase.toNat + irq.val, update p)
  | none => (p.master.irqBase.toNat + 7, update p)

/-- `pic_reset`: everything but the edge/level selection is set to zero, the index of the
controller with it. -/
def picReset (pic : PicState) : PicState :=
  { lastIrr := 0, irr := 0, imr := 0, isr := 0, priorityAdd := 0, irqBase := 0,
    readRegSelect := false, poll := false, specialMask := false, initState := 0,
    autoEoi := false, rotateOnAutoEoi := false, specialFullyNestedMode := false, init4 := false,
    elcr := pic.elcr, elcrMask := pic.elcrMask, idxPic := 0 }

/-- An operation command of `pic_ioport_write`, by the upper three bits of the value. -/
def writeOcw2 (p : DevPic) (which : Which) (val : BitVec 8) : DevPic :=
  let pic := p.get which
  let irq : Fin 8 := ⟨val.toNat % 8, Nat.mod_lt _ (by decide)⟩
  match val.toNat / 32 with
  | 0 => p.set which { pic with rotateOnAutoEoi := false }
  | 4 => p.set which { pic with rotateOnAutoEoi := true }
  | 1 =>
    let priority := getPriority pic pic.isr
    if priority = 8 then p
    else update (p.set which { pic with isr := clearLine pic.isr (pic.lineOf priority) })
  | 5 =>
    let priority := getPriority pic pic.isr
    if priority = 8 then p
    else
      update (p.set which
        { pic with
          isr := clearLine pic.isr (pic.lineOf priority)
          priorityAdd := ((pic.lineOf priority).val + 1) % 8 })
  | 3 => update (p.set which { pic with isr := clearLine pic.isr irq })
  | 6 => update (p.set which { pic with priorityAdd := (val.toNat + 1) % 8 })
  | 7 =>
    update (p.set which
      { pic with isr := clearLine pic.isr irq, priorityAdd := (irq.val + 1) % 8 })
  | _ => p

/-- `pic_ioport_write`. -/
def picIoportWrite (p : DevPic) (which : Which) (addr : Bool) (val : BitVec 8) : DevPic :=
  let pic := p.get which
  if addr = false then
    if val.getLsbD 4 then
      let p := p.set which { picReset pic with initState := 1, init4 := val.getLsbD 0 }
      { p with flag := false }
    else if val.getLsbD 3 then
      p.set which
        { pic with
          poll := if val.getLsbD 2 then true else pic.poll
          readRegSelect := if val.getLsbD 1 then val.getLsbD 0 else pic.readRegSelect
          specialMask := if val.getLsbD 6 then val.getLsbD 5 else pic.specialMask }
    else writeOcw2 p which val
  else
    match pic.initState with
    | 0 => update (picUpdateImr p which val)
    | 1 => p.set which { pic with irqBase := val &&& 0xf8, initState := 2 }
    | 2 => p.set which { pic with initState := if pic.init4 then 3 else 0 }
    | 3 =>
      p.set which
        { pic with
          specialFullyNestedMode := val.getLsbD 4
          autoEoi := val.getLsbD 1
          initState := 0 }
    | _ => p

/-- `pic_poll_read`. The device is found from the index kept in the controller; with the index of
another controller what is accessed is not the device. -/
def picPollRead (p : DevPic) (which : Which) : Option (Nat × DevPic) :=
  if (p.get which).idxPic ≠ which.index then none
  else
    match picGetIrq (p.get which) with
    | some ret =>
      let p := match which with
        | .slave =>
          { p with
            master := { p.master with
              isr := clearLine p.master.isr 2, irr := clearLine p.master.irr 2 } }
        | .master => p
      let pic := p.get which
      let p := p.set which { pic with irr := clearLine pic.irr ret, isr := clearLine pic.isr ret }
      some (ret.val, if which = .slave ∨ ret ≠ 2 then update p else p)
    | none => some (0, update p)

/-- `pic_ioport_read`. -/
def picIoportRead (p : DevPic) (which : Which) (addr : Bool) : Option (Nat × DevPic) :=
  let pic := p.get which
  if pic.poll then
    (picPollRead p which).map fun (ret, p) => (ret, p.set which { p.get which with poll := false })
  else if addr = false then
    some ((if pic.readRegSelect then pic.isr else pic.irr).toNat, p)
  else some (pic.imr.toNat, p)

/-- `picIOPortElcrWrite`. -/
def picIOPortElcrWrite (p : DevPic) (which : Which) (val : BitVec 8) : DevPic :=
  p.set which { p.get which with elcr := val &&& (p.get which).elcrMask }

/-! ### Operations -/

/-- What devices, the processor and the guest do with the controllers. -/
inductive Op where
  | setIrq (iIrq : Fin 16) (iLevel : Nat)
  | getInterrupt
  | write (which : Which) (addr : Bool) (val : BitVec 8)
  | read (which : Which) (addr : Bool)
  | writeElcr (which : Which) (val : BitVec 8)

/-- Any operation but an initialisation in single mode, which the code refuses. -/
def step (p : DevPic) : Op → Option DevPic
  | .setIrq iIrq iLevel => some (picSetIrq p iIrq iLevel)
  | .getInterrupt => some (picGetInterrupt p).2
  | .write which addr val =>
    if addr = false ∧ val.getLsbD 4 = true ∧ val.getLsbD 1 = true then none
    else some (picIoportWrite p which addr val)
  | .read which addr => (picIoportRead p which addr).map Prod.snd
  | .writeElcr which val => some (picIOPortElcrWrite p which val)

/-- The controllers after a reset, with any edge/level selection their masks allow. -/
def reset (elcr elcr' : BitVec 8) : DevPic :=
  let blank : PicState :=
    { lastIrr := 0, irr := 0, imr := 0, isr := 0, priorityAdd := 0, irqBase := 0,
      readRegSelect := false, poll := false, specialMask := false, initState := 0,
      autoEoi := false, rotateOnAutoEoi := false, specialFullyNestedMode := false,
      init4 := false, elcr := 0, elcrMask := 0, idxPic := 0 }
  { master := picReset { blank with elcr := elcr &&& 0xf8, elcrMask := 0xf8 }
    slave := picReset { blank with elcr := elcr' &&& 0xde, elcrMask := 0xde, idxPic := 1 }
    flag := false }

end VBox.Devices.Pic
