import VBox.Lib.Run
import VBox.Devices.Pic

/-!
When the interrupt flag tracks the registers.

`pic_update_irq` makes the flag right as long as an edge it raises on the master's line 2 can be
seen: the line was low before, or the request is still there. `Tracks` is this invariant, `Orderly`
lists the accesses that break it: an acknowledgement, a mask or a poll that drops the request while the
slave keeps the line high, and the initialisation commands, which change what is pending without an
update.
-/

namespace VBox.Devices.Pic

open VBox.Lib Option

/-! ### Lines of a register -/

theorem bit_one_shift (i j : Fin 8) : (1#8 <<< i.val).getLsbD j.val = decide (j = i) := by
  revert i j
  decide

theorem line_setLine (reg : BitVec 8) (i j : Fin 8) :
    line (setLine reg i) j = (line reg j || decide (j = i)) := by
  rw [line, setLine, BitVec.getLsbD_or, bit_one_shift]
  rfl

theorem line_clearLine (reg : BitVec 8) (i j : Fin 8) :
    line (clearLine reg i) j = (line reg j && !decide (j = i)) := by
  rw [line, clearLine, BitVec.getLsbD_and, BitVec.getLsbD_not, bit_one_shift,
    decide_eq_true j.isLt, Bool.true_and]
  rfl

/-- A register is known by its lines. -/
theorem reg_ext {a b : BitVec 8} (same : ∀ j, line a j = line b j) : a = b := by
  apply BitVec.eq_of_getLsbD_eq
  intro j below
  exact same ⟨j, below⟩

theorem setLine_of_line {reg : BitVec 8} {i : Fin 8} (set : line reg i = true) :
    setLine reg i = reg := by
  apply reg_ext
  intro j
  rw [line_setLine]
  by_cases same : j = i
  · rw [same, set, Bool.true_or]
  · rw [decide_eq_false same, Bool.or_false]

theorem clearLine_of_line {reg : BitVec 8} {i : Fin 8} (clear : line reg i = false) :
    clearLine reg i = reg := by
  apply reg_ext
  intro j
  rw [line_clearLine]
  by_cases same : j = i
  · rw [same, clear, Bool.false_and]
  · rw [decide_eq_false same, Bool.not_false, Bool.and_true]

/-! ### The pending interrupt -/

/-- A pending interrupt is requested and not masked. -/
theorem line_of_picGetIrq {pic : PicState} {irq : Fin 8} (pending : picGetIrq pic = some irq) :
    line pic.irr irq = true ∧ line pic.imr irq = false := by
  unfold picGetIrq at pending
  simp only at pending
  split at pending
  · cases pending
  next some_line =>
    generalize getPriority pic (if (pic.specialFullyNestedMode && pic.idxPic == 0) = true then
      clearLine pic.isr 2 else pic.isr) = current at pending
    split at pending
    · have found : ∃ priority, (List.range 8).find? (fun priority =>
          line (pic.irr &&& ~~~pic.imr) (pic.lineOf priority)) = some priority ∧
          getPriority pic (pic.irr &&& ~~~pic.imr) = priority := by
        cases search : (List.range 8).find? (fun priority =>
            line (pic.irr &&& ~~~pic.imr) (pic.lineOf priority)) with
        | none =>
          rw [getPriority, search] at some_line
          exact absurd rfl some_line
        | some priority =>
          refine ⟨priority, rfl, ?_⟩
          rw [getPriority, search]
          rfl
      obtain ⟨priority, search, here⟩ := found
      have inMask := List.find?_some search
      rw [here] at pending
      rw [← some.inj pending]
      rw [line, BitVec.getLsbD_and, BitVec.getLsbD_not, Bool.and_eq_true, Bool.and_eq_true,
        Bool.not_eq_true'] at inMask
      exact ⟨inMask.1, inMask.2.2⟩
    · cases pending

/-- Without a request nothing is pending. -/
theorem picGetIrq_of_irr_zero {pic : PicState} (none_requested : pic.irr = 0) :
    picGetIrq pic = none := by
  cases pending : picGetIrq pic with
  | none => rfl
  | some irq =>
    have requested := (line_of_picGetIrq pending).1
    rw [none_requested] at requested
    simp [line] at requested

/-! ### The property -/

/-- The master with its request on line 2 replaced by whether the slave has something to
signal. -/
def DevPic.linked (p : DevPic) : PicState :=
  { p.master with
    irr := if (picGetIrq p.slave).isSome then setLine p.master.irr 2
      else clearLine p.master.irr 2 }

/-- The processor has something to be signalled. -/
def DevPic.signals (p : DevPic) : Bool := (picGetIrq p.linked).isSome

/-- The flag is right, and an edge on line 2 that was seen is still requested. -/
structure Tracks (p : DevPic) : Prop where
  flag : p.flag = p.signals
  edge : line p.master.lastIrr 2 = true → line p.master.irr 2 = true
  elcr : line p.master.elcr 2 = false
  elcrMask : p.master.elcrMask = 0xf8

theorem picSetIrq1_elcr (pic : PicState) (irq : Fin 8) (level : Bool) :
    (picSetIrq1 pic irq level).elcr = pic.elcr ∧
      (picSetIrq1 pic irq level).elcrMask = pic.elcrMask := by
  unfold picSetIrq1
  split <;> split <;> exact ⟨rfl, rfl⟩

/-- A line that is lowered, or raised with the edge seen, is requested as it stands. -/
theorem line_picSetIrq1_self {pic : PicState} {irq : Fin 8} {level : Bool}
    (edge : level = true → line pic.lastIrr irq = true → line pic.irr irq = true) :
    line (picSetIrq1 pic irq level).irr irq = level ∧
      line (picSetIrq1 pic irq level).lastIrr irq = level := by
  unfold picSetIrq1
  cases level with
  | false =>
    have lowered : ∀ reg : BitVec 8, line (clearLine reg irq) irq = false := fun reg => by
      rw [line_clearLine, decide_eq_true rfl, Bool.not_true, Bool.and_false]
    split <;> exact ⟨lowered _, lowered _⟩
  | true =>
    have raised : ∀ reg : BitVec 8, line (setLine reg irq) irq = true := fun reg => by
      rw [line_setLine, decide_eq_true rfl, Bool.or_true]
    split
    · exact ⟨raised _, raised _⟩
    · refine ⟨?_, raised _⟩
      simp only [if_true]
      split
      case isTrue seen => exact edge rfl seen
      case isFalse => exact raised _

/-- Setting a line keeps what was seen of the others. -/
theorem line_picSetIrq1_edge {pic : PicState} {irq : Fin 8} {level : Bool} {j : Fin 8}
    (edge : line pic.lastIrr j = true → line pic.irr j = true) :
    line (picSetIrq1 pic irq level).lastIrr j = true →
      line (picSetIrq1 pic irq level).irr j = true := by
  by_cases same : j = irq
  · subst same
    obtain ⟨requested, seen⟩ := line_picSetIrq1_self fun (_ : level = true) => edge
    intro high
    rw [requested, ← seen]
    exact high
  · have kept : ∀ reg : BitVec 8, line (setLine reg irq) j = line reg j ∧
        line (clearLine reg irq) j = line reg j := fun reg => by
      rw [line_setLine, line_clearLine, decide_eq_false same, Bool.or_false, Bool.not_false,
        Bool.and_true]
      exact ⟨rfl, rfl⟩
    unfold picSetIrq1
    cases level <;> split <;> simp only [if_true, Bool.false_eq_true, if_false, (kept _).1, (kept _).2]
    · exact edge
    · exact edge
    · exact edge
    · split
      · exact edge
      · rw [(kept _).1]
        exact edge

/-! ### The update -/

/-- The update never calls itself: with nothing pending on the slave, line 2 of the master has just been
cleared. -/
theorem picUpdateIrq_eq (depth : Nat) (p : DevPic) : picUpdateIrq (depth + 1) p =
      { p with
        master := picSetIrq1 p.master 2 (picGetIrq p.slave).isSome
        flag := (picGetIrq (picSetIrq1 p.master 2 (picGetIrq p.slave).isSome)).isSome } := by
  rw [picUpdateIrq]
  simp only
  split
  case h_1 irq pending =>
    rw [pending]
    split
    · rfl
    next wrong =>
      rw [not_or, not_not, not_not] at wrong
      obtain ⟨two, silent⟩ := wrong
      have requested := (line_of_picGetIrq pending).1
      have cleared := (@line_picSetIrq1_self p.master 2 false nofun).1
      rw [two, silent, isSome_none, cleared] at requested
      cases requested
  case h_2 pending =>
    rw [pending]
    rfl

theorem update_eq (p : DevPic) : update p =
      { p with
        master := picSetIrq1 p.master 2 (picGetIrq p.slave).isSome
        flag := (picGetIrq (picSetIrq1 p.master 2 (picGetIrq p.slave).isSome)).isSome } :=
  picUpdateIrq_eq 1 p

/-- An update makes the flag right if an edge on line 2 can be seen, or none is due. -/
theorem tracks_update {p : DevPic} (elcr : line p.master.elcr 2 = false)
    (elcrMask : p.master.elcrMask = 0xf8)
    (edge : (picGetIrq p.slave).isSome = true → line p.master.lastIrr 2 = true →
      line p.master.irr 2 = true) : Tracks (update p) := by
  rw [update_eq]
  obtain ⟨requested, seen⟩ := line_picSetIrq1_self edge
  obtain ⟨elcrSame, maskSame⟩ := picSetIrq1_elcr p.master 2 (picGetIrq p.slave).isSome
  constructor
  case flag =>
    -- Line 2 of the master already is what the slave has to signal.
    generalize picSetIrq1 p.master 2 (picGetIrq p.slave).isSome = master at requested
    have irr : (if (picGetIrq p.slave).isSome then setLine master.irr 2
        else clearLine master.irr 2) = master.irr := by
      cases wants : (picGetIrq p.slave).isSome with
      | true => exact setLine_of_line (wants ▸ requested)
      | false => exact clearLine_of_line (wants ▸ requested)
    unfold DevPic.signals DevPic.linked
    simp only
    rw [irr]
  case edge =>
    show line (picSetIrq1 p.master 2 _).lastIrr 2 = true → line (picSetIrq1 p.master 2 _).irr 2 = true
    rw [requested, seen]
    exact id
  case elcr =>
    show line (picSetIrq1 p.master 2 _).elcr 2 = false
    rw [elcrSame]
    exact elcr
  case elcrMask =>
    show (picSetIrq1 p.master 2 _).elcrMask = 0xf8
    rw [maskSame]
    exact elcrMask

/-- An update after changes that left line 2 of the master alone. -/
theorem Tracks.update {p p' : DevPic} (t : Tracks p) (elcr : p'.master.elcr = p.master.elcr)
    (elcrMask : p'.master.elcrMask = p.master.elcrMask)
    (edge : line p'.master.lastIrr 2 = true → line p'.master.irr 2 = true) :
    Tracks (Pic.update p') :=
  tracks_update (elcr ▸ t.elcr) (elcrMask ▸ t.elcrMask) fun _ => edge

/-- Changes that `pic_get_irq` does not see, without an update. -/
theorem Tracks.unseen {p p' : DevPic} (t : Tracks p) (flag : p'.flag = p.flag)
    (slave : picGetIrq p'.slave = picGetIrq p.slave) (irr : p'.master.irr = p.master.irr)
    (lastIrr : p'.master.lastIrr = p.master.lastIrr) (elcr : line p'.master.elcr 2 = false)
    (elcrMask : p'.master.elcrMask = p.master.elcrMask)
    (master : ∀ reg, picGetIrq { p'.master with irr := reg } = picGetIrq { p.master with irr := reg }) :
    Tracks p' where
  flag := by
    rw [flag, t.flag, DevPic.signals, DevPic.signals, DevPic.linked, DevPic.linked, slave, irr, master]
  edge := by
    rw [lastIrr, irr]
    exact t.edge
  elcr := elcr
  elcrMask := elcrMask.trans t.elcrMask

/-! ### Operations -/

/-- The accesses that keep the flag right. -/
def Orderly (p : DevPic) : Op → Prop
  | .setIrq _ _ => True
  | .getInterrupt =>
    -- The slave has nothing more to signal once its interrupt is acknowledged.
    picGetIrq p.master = some 2 → ∀ irq ∈ picGetIrq p.slave,
      picGetIrq (picIntack p.slave irq) = none
  | .write which addr val =>
    if addr = false then
      -- Initialising one controller clears the flag for both.
      val.getLsbD 4 = true →
        match which with
        | .master => picGetIrq p.slave = none
        | .slave => picGetIrq { p.master with irr := clearLine p.master.irr 2 } = none
    else
      -- Masking the slave's pending interrupt leaves it nothing else to signal.
      (which = .slave → p.slave.initState = 0 → picGetIrq p.master = some 2 →
        (∃ irq ∈ picGetIrq p.slave, line val irq = true) →
          picGetIrq { p.slave with imr := val } = none) ∧
      -- The nesting mode changes only while line 2 is not in service.
      ((p.get which).initState = 3 → line (p.get which).isr 2 = true →
        val.getLsbD 4 = (p.get which).specialFullyNestedMode)
  | .read which _ =>
    -- Only the master is polled, and not for an interrupt of the slave.
    (p.get which).poll = true → which = .master ∧ picGetIrq p.master ≠ some 2
  | .writeElcr _ _ => True

instance (p : DevPic) (op : Op) : Decidable (Orderly p op) := by
  cases op with
  | write which addr val =>
      cases which <;> cases addr <;> unfold Orderly <;> infer_instance
  | _ => unfold Orderly; infer_instance

/-- A line set on either controller, with the update. -/
theorem Tracks.setLineUpdate {p : DevPic} (t : Tracks p) (which : Which) (irq : Fin 8)
    (level : Bool) : Tracks (Pic.update (p.set which (picSetIrq1 (p.get which) irq level))) := by
  cases which with
  | master =>
    obtain ⟨elcr, elcrMask⟩ := picSetIrq1_elcr p.master irq level
    exact t.update elcr elcrMask (line_picSetIrq1_edge t.edge)
  | slave => exact t.update rfl rfl t.edge

theorem tracks_setIrq {p : DevPic} (t : Tracks p) (iIrq : Fin 16) (iLevel : Nat) :
    Tracks (picSetIrq p iIrq iLevel) := by
  unfold picSetIrq
  simp only
  split
  · exact (t.setLineUpdate _ _ _).setLineUpdate _ _ _
  · exact t.setLineUpdate _ _ _

theorem picIntack_elcr (pic : PicState) (irq : Fin 8) :
    (picIntack pic irq).elcr = pic.elcr ∧ (picIntack pic irq).elcrMask = pic.elcrMask ∧
      (picIntack pic irq).lastIrr = pic.lastIrr := by
  unfold picIntack
  cases pic.autoEoi <;> cases pic.rotateOnAutoEoi <;>
  · simp only [Bool.false_eq_true, if_false, if_true]
    split <;> exact ⟨rfl, rfl, rfl⟩

/-- An acknowledgement leaves the requests on the other lines. -/
theorem line_picIntack {pic : PicState} {irq j : Fin 8} (other : j ≠ irq) :
    line (picIntack pic irq).irr j = line pic.irr j := by
  have kept : line (clearLine pic.irr irq) j = line pic.irr j := by
    rw [line_clearLine, decide_eq_false other, Bool.not_false, Bool.and_true]
  unfold picIntack
  cases pic.autoEoi <;> cases pic.rotateOnAutoEoi <;>
  · simp only [Bool.false_eq_true, if_false, if_true]
    split
    · rfl
    · exact kept

theorem tracks_getInterrupt {p : DevPic} (t : Tracks p) (orderly : Orderly p .getInterrupt) :
    Tracks (picGetInterrupt p).2 := by
  unfold picGetInterrupt
  split
  case h_2 => exact t.update rfl rfl t.edge
  case h_1 irq pending =>
    obtain ⟨elcr, elcrMask, lastIrr⟩ := picIntack_elcr p.master irq
    simp only
    split
    case isTrue two =>
      have orderly := orderly (two ▸ pending)
      split
      case h_1 irq2 slavePending =>
        -- The request on line 2 is gone, but so is what the slave has to signal.
        apply tracks_update
        case elcr => exact elcr ▸ t.elcr
        case elcrMask => exact elcrMask.trans t.elcrMask
        case edge =>
          intro wants
          rw [orderly irq2 slavePending] at wants
          cases wants
      case h_2 slavePending =>
        apply tracks_update
        case elcr => exact elcr ▸ t.elcr
        case elcrMask => exact elcrMask.trans t.elcrMask
        case edge =>
          intro wants
          rw [slavePending] at wants
          cases wants
    case isFalse other =>
      apply t.update elcr elcrMask
      rw [lastIrr, line_picIntack (Ne.symm other)]
      exact t.edge

/-- An initialisation command clears what is pending on its controller, and the flag. -/
theorem tracks_initialise {p : DevPic} (t : Tracks p) (which : Which) (init4 : Bool)
    (orderly : match which with
      | .master => picGetIrq p.slave = none
      | .slave => picGetIrq { p.master with irr := clearLine p.master.irr 2 } = none) :
    Tracks { p.set which { picReset (p.get which) with initState := 1, init4 } with
      flag := false } := by
  cases which with
  | master =>
    have silent : picGetIrq p.slave = none := orderly
    constructor
    case flag =>
      unfold DevPic.signals DevPic.linked
      simp only [DevPic.set, DevPic.get, silent, isSome_none, Bool.false_eq_true, if_false]
      rw [picGetIrq_of_irr_zero (show clearLine 0 2 = 0 by decide)]
      rfl
    case edge => exact fun seen => absurd seen (by decide : ¬ line (0 : BitVec 8) 2 = true)
    case elcr => exact t.elcr
    case elcrMask => exact t.elcrMask
  | slave =>
    have quiet : picGetIrq { p.master with irr := clearLine p.master.irr 2 } = none := orderly
    have silent : picGetIrq { picReset p.slave with initState := 1, init4 := init4 } = none :=
      picGetIrq_of_irr_zero rfl
    constructor
    case flag =>
      unfold DevPic.signals DevPic.linked
      simp only [DevPic.set, DevPic.get, silent, isSome_none, Bool.false_eq_true, if_false, quiet]
    case edge => exact t.edge
    case elcr => exact t.elcr
    case elcrMask => exact t.elcrMask

theorem tracks_writeOcw2 {p : DevPic} (t : Tracks p) (which : Which) (val : BitVec 8) :
    Tracks (writeOcw2 p which val) := by
  -- End of interrupt and priority commands update after they changed what is in service.
  have updated : ∀ pic : PicState, pic.elcr = (p.get which).elcr →
      pic.elcrMask = (p.get which).elcrMask → pic.irr = (p.get which).irr →
      pic.lastIrr = (p.get which).lastIrr → Tracks (Pic.update (p.set which pic)) := by
    intro pic elcr elcrMask irr lastIrr
    cases which with
    | master =>
      apply t.update elcr elcrMask
      show line pic.lastIrr 2 = true → line pic.irr 2 = true
      rw [irr, lastIrr]
      exact t.edge
    | slave => exact t.update rfl rfl t.edge
  have rotate : ∀ mode, Tracks (p.set which { p.get which with rotateOnAutoEoi := mode }) := by
    intro mode
    cases which with
    | master => exact t.unseen rfl rfl rfl rfl t.elcr rfl fun _ => rfl
    | slave => exact t.unseen rfl rfl rfl rfl t.elcr rfl fun _ => rfl
  unfold writeOcw2
  simp only
  split
  · exact rotate false
  · exact rotate true
  · split
    · exact t
    · exact updated _ rfl rfl rfl rfl
  · split
    · exact t
    · exact updated _ rfl rfl rfl rfl
  · exact updated _ rfl rfl rfl rfl
  · exact updated _ rfl rfl rfl rfl
  · exact updated _ rfl rfl rfl rfl
  · exact t

/-- What `pic_update_imr` does to the master's requests: it drops the one on line 2 if it masks the
slave's pending interrupt. -/
theorem picUpdateImr_cases (p : DevPic) (which : Which) (val : BitVec 8) :
    (∃ flag, picUpdateImr p which val =
        { p.set which { p.get which with imr := val } with flag }) ∨
      (which = .slave ∧ picGetIrq p.master = some 2 ∧
        (∃ irq ∈ picGetIrq p.slave, line val irq = true) ∧
        picUpdateImr p which val =
          { master := { p.master with irr := clearLine p.master.irr 2 }
            slave := { p.slave with imr := val }
            flag := false }) := by
  unfold picUpdateImr
  by_cases two : picGetIrq p.master = some 2
  · simp only [if_pos two]
    cases slavePending : picGetIrq (p.get .slave) with
    | none => exact .inl ⟨p.flag, by cases which <;> rfl⟩
    | some irq =>
      simp only
      split
      case isFalse => exact .inl ⟨p.flag, by cases which <;> rfl⟩
      case isTrue masked =>
        cases which with
        | slave => exact .inr ⟨rfl, two, ⟨irq, slavePending, masked⟩, rfl⟩
        | master =>
          -- The slave's mask is what it was, and its pending interrupt is not masked.
          have unmasked : line p.slave.imr irq = false := (line_of_picGetIrq slavePending).2
          have masked : line p.slave.imr irq = true := masked
          rw [unmasked] at masked
          cases masked
  · simp only [if_neg two]
    cases picGetIrq (p.get .master) with
    | none => exact .inl ⟨p.flag, by cases which <;> rfl⟩
    | some irq =>
      simp only
      split
      · exact .inl ⟨false, rfl⟩
      · exact .inl ⟨p.flag, by cases which <;> rfl⟩

theorem tracks_writeImr {p : DevPic} (t : Tracks p) (which : Which) (val : BitVec 8)
    (orderly : which = .slave → picGetIrq p.master = some 2 →
      (∃ irq ∈ picGetIrq p.slave, line val irq = true) →
        picGetIrq { p.slave with imr := val } = none) :
    Tracks (Pic.update (picUpdateImr p which val)) := by
  rcases picUpdateImr_cases p which val with ⟨flag, same⟩ | ⟨slave, two, masked, dropped⟩
  · rw [same]
    cases which with
    | master => exact t.update rfl rfl t.edge
    | slave => exact t.update rfl rfl t.edge
  · have silent := orderly slave two masked
    rw [dropped]
    apply tracks_update
    case elcr => exact t.elcr
    case elcrMask => exact t.elcrMask
    case edge =>
      intro wants
      rw [silent] at wants
      cases wants

/-- A nesting mode that does not matter: line 2 is not in service, or the mode stays. -/
theorem picGetIrq_nested {pic : PicState} {nested : Bool}
    (idle : line pic.isr 2 = true → nested = pic.specialFullyNestedMode) :
    picGetIrq { pic with specialFullyNestedMode := nested } = picGetIrq pic := by
  cases inService : line pic.isr 2 with
  | true => rw [idle inService]
  | false =>
    have cleared : clearLine pic.isr 2 = pic.isr := clearLine_of_line inService
    unfold picGetIrq
    simp only [cleared, ite_self]
    rfl

theorem tracks_write {p : DevPic} (t : Tracks p) (which : Which) (addr : Bool) (val : BitVec 8)
    (orderly : Orderly p (.write which addr val)) : Tracks (picIoportWrite p which addr val) := by
  unfold picIoportWrite
  simp only
  cases addr with
  | false =>
    simp only [Orderly, if_true] at orderly ⊢
    split
    case isTrue init => exact tracks_initialise t which _ (orderly init)
    case isFalse =>
      split
      case isTrue =>
        cases which with
        | master => exact t.unseen rfl rfl rfl rfl t.elcr rfl fun _ => rfl
        | slave => exact t.unseen rfl rfl rfl rfl t.elcr rfl fun _ => rfl
      case isFalse => exact tracks_writeOcw2 t which val
  | true =>
    simp only [Orderly, Bool.true_eq_false, if_false] at orderly ⊢
    obtain ⟨mask, nested⟩ := orderly
    split
    case h_1 normal =>
      exact tracks_writeImr t which val fun slave => mask slave (by subst slave; exact normal)
    case h_2 =>
      cases which with
      | master => exact t.unseen rfl rfl rfl rfl t.elcr rfl fun _ => rfl
      | slave => exact t.unseen rfl rfl rfl rfl t.elcr rfl fun _ => rfl
    case h_3 =>
      cases which with
      | master => exact t.unseen rfl rfl rfl rfl t.elcr rfl fun _ => rfl
      | slave => exact t.unseen rfl rfl rfl rfl t.elcr rfl fun _ => rfl
    case h_4 last =>
      have same := nested last
      cases which with
      | master =>
        exact t.unseen rfl rfl rfl rfl t.elcr rfl fun reg =>
          @picGetIrq_nested { p.master with irr := reg } _ same
      | slave =>
        exact t.unseen rfl (@picGetIrq_nested p.slave _ same) rfl rfl t.elcr rfl fun _ => rfl
    case h_5 => exact t

theorem tracks_read {p q : DevPic} {value : Nat} (t : Tracks p) (which : Which) (addr : Bool)
    (orderly : Orderly p (.read which addr)) (taken : picIoportRead p which addr = some (value, q)) :
    Tracks q := by
  unfold picIoportRead at taken
  simp only at taken
  split at taken
  case isFalse =>
    split at taken <;>
    · rw [← (Prod.mk.inj (some.inj taken)).2]
      exact t
  case isTrue poll =>
    obtain ⟨rfl, notTwo⟩ := orderly poll
    obtain ⟨⟨ret, after⟩, polled, result⟩ := map_eq_some_iff.mp taken
    rw [← (Prod.mk.inj result).2]
    have polledTracks : Tracks after := by
      unfold picPollRead at polled
      split at polled
      · cases polled
      · split at polled
        case h_2 =>
          rw [← (Prod.mk.inj (some.inj polled)).2]
          exact t.update rfl rfl t.edge
        case h_1 irq pending =>
          have other : irq ≠ 2 := by
            rintro rfl
            exact notTwo pending
          simp only [if_pos (Or.inr other : Which.master = .slave ∨ irq ≠ 2)] at polled
          rw [← (Prod.mk.inj (some.inj polled)).2]
          refine t.update ?_ ?_ ?_
          · rfl
          · rfl
          show line p.master.lastIrr 2 = true → line (clearLine p.master.irr irq) 2 = true
          rw [line_clearLine, decide_eq_false (Ne.symm other), Bool.not_false, Bool.and_true]
          exact t.edge
    exact polledTracks.unseen rfl rfl rfl rfl polledTracks.elcr rfl fun _ => rfl

theorem tracks_writeElcr {p : DevPic} (t : Tracks p) (which : Which) (val : BitVec 8) :
    Tracks (picIOPortElcrWrite p which val) := by
  cases which with
  | slave => exact t.unseen rfl rfl rfl rfl t.elcr rfl fun _ => rfl
  | master =>
    have edge_only : line (val &&& p.master.elcrMask) 2 = false := by
      rw [t.elcrMask, line, BitVec.getLsbD_and]
      exact Bool.and_false _
    exact t.unseen rfl rfl rfl rfl edge_only rfl fun _ => rfl

/-! ### Runs -/

theorem tracks_reset (elcr elcr' : BitVec 8) : Tracks (reset elcr elcr') where
  flag := by
    have silent : picGetIrq (reset elcr elcr').slave = none := picGetIrq_of_irr_zero rfl
    have quiet : picGetIrq (reset elcr elcr').linked = none := by
      apply picGetIrq_of_irr_zero
      rw [DevPic.linked, silent]
      exact (by decide : clearLine 0 2 = 0)
    rw [DevPic.signals, quiet]
    rfl
  edge := fun seen => absurd seen (by decide : ¬ line (0 : BitVec 8) 2 = true)
  elcr := by
    show line (elcr &&& 0xf8) 2 = false
    rw [line, BitVec.getLsbD_and]
    exact Bool.and_false _
  elcrMask := rfl

theorem Tracks.step {p q : DevPic} {op : Op} (t : Tracks p) (orderly : Orderly p op)
    (taken : step p op = some q) : Tracks q := by
  cases op with
  | setIrq iIrq iLevel => exact some.inj taken ▸ tracks_setIrq t iIrq iLevel
  | getInterrupt => exact some.inj taken ▸ tracks_getInterrupt t orderly
  | write which addr val =>
    rw [Pic.step] at taken
    split at taken
    · cases taken
    · exact some.inj taken ▸ tracks_write t which addr val orderly
  | read which addr =>
    obtain ⟨⟨value, after⟩, read, rfl⟩ := map_eq_some_iff.mp taken
    exact tracks_read t which addr orderly read
  | writeElcr which val => exact some.inj taken ▸ tracks_writeElcr t which val

/-- In a run of orderly accesses the flag is set exactly when the registers have something to
signal. -/
theorem pic_run_flag {elcr elcr' : BitVec 8} {ops : List Op} {p : DevPic}
    (run : Run (Guarded Orderly fun p op q => step p op = some q) (reset elcr elcr') ops p) :
    p.flag = true ↔ (picGetIrq p.linked).isSome = true := by
  have tracks := run.invariant Tracks (fun t taken => t.step taken.1 taken.2)
    (tracks_reset elcr elcr')
  rw [tracks.flag, DevPic.signals]

/-- An interrupt of the slave, acknowledged and ended on both controllers. -/
def oneInterrupt : List Op :=
  [.setIrq 8 1, .getInterrupt, .write .slave false 0x20, .write .master false 0x20,
    .setIrq 8 0, .setIrq 3 1]

theorem pic_run_flag_oneInterrupt :
    ∃ p, Run (Guarded Orderly fun p op q => step p op = some q) (reset 0 0) oneInterrupt p ∧
      (p.flag = true ↔ (picGetIrq p.linked).isSome = true) ∧ p.flag = true := by
  obtain ⟨p, run, flag⟩ := Run.exists_of_follow Orderly step (reset 0 0) oneInterrupt
    (fun p => p.flag = true) (by decide +kernel)
  exact ⟨p, run, pic_run_flag run, flag⟩

/-- With interrupts 8 and 9 pending, masking 8 drops the master's request on line 2, and the edge
that would raise it again is never seen: 9 is not signalled. -/
theorem exists_run_lost_interrupt :
    ¬ ∀ (elcr elcr' : BitVec 8) (ops : List Op) (p : DevPic),
      Run (fun p op q => step p op = some q) (reset elcr elcr') ops p →
        (p.flag = true ↔ (picGetIrq p.linked).isSome = true) := by
  intro all
  obtain ⟨p, run, silent, pending⟩ := Run.exists_of_follow (fun _ _ => True) step (reset 0 0)
    [.setIrq 8 1, .setIrq 9 1, .write .slave true 0x01]
    (fun p => p.flag = false ∧ (picGetIrq p.linked).isSome = true) (by decide +kernel)
  have signalled := (all 0 0 _ p (run.mono And.right)).mpr pending
  rw [silent] at signalled
  cases signalled

end VBox.Devices.Pic
