import VBox.Lib.Run
import VBox.Devices.VBoxScsi

/-!
No access of the SCSI interface leaves what it accesses, as long as the guest keeps to what the
registers are for.

`Sensible` lists the steps that go wrong: command bytes for an empty command descriptor block,
data written without a buffer or behind its end, data read before there is a buffer, and anything that
frees a buffer a request in flight points to. `Consistent` is the invariant of the other runs: the command
state fixes which of the positions are in use, and a buffer in use is as long as what was moved
and what is left together.
-/

namespace VBox.Devices.Scsi

open VBox.Storage (u32 u32Sub u32_of_lt)
open VBox.Lib List Option

namespace Device

/-- The size of the current buffer, zero if there is none. -/
def bufferSize (d : Device) : Nat := (d.sizeOf d.scsi.pbBuf).getD 0

/-- The command moves data to the device. -/
def toDevice (d : Device) : Prop := d.scsi.uTxDir = VBOXSCSI_TXDIR_TO_DEVICE

instance (d : Device) : Decidable d.toDevice :=
  inferInstanceAs (Decidable (d.scsi.uTxDir = VBOXSCSI_TXDIR_TO_DEVICE))

/-- A request in flight points to the current buffer. -/
def bufferInFlight (d : Device) : Bool := d.referenced d.scsi.pbBuf

/-- The write resets the interface. -/
def resetBy (d : Device) (iRegister uVal : UInt8) : Prop :=
  iRegister = 3 ∨
    (iRegister = 1 ∧ (d.scsi.enmState ≠ .commandReady ∨ ¬ d.toDevice)) ∨
    (iRegister = 0 ∧ d.scsi.enmState = .readTxdir ∧ 1 < uVal.toNat) ∨
    (iRegister = 0 ∧ d.scsi.enmState = .readCdbSizeBufhi ∧
      VBOXSCSI_CDB_SIZE_MAX < uVal.toNat &&& 0x0f)

instance (d : Device) (iRegister uVal : UInt8) : Decidable (d.resetBy iRegister uVal) := by
  unfold resetBy; infer_instance

end Device

/-- The steps that do not go wrong. For data from the device no bound is asked: there the buffer
ends where the transfer does. -/
def Sensible (d : Device) : Op → Prop
  | .readRegister iRegister =>
    iRegister = 1 → d.scsi.enmState = .commandReady → 0 < d.scsi.cbBuf →
      d.scsi.pbBuf ≠ none ∧ (d.toDevice → d.scsi.iBuf < d.bufferSize) ∧
        (d.scsi.cbBuf = 1 → d.bufferInFlight = false)
  | .writeRegister iRegister uVal _ =>
    (iRegister = 0 → d.scsi.enmState = .readCommand → d.scsi.cbCDB ≠ 0) ∧
      (iRegister = 1 → d.scsi.enmState = .commandReady → d.toDevice →
        d.scsi.iBuf < d.bufferSize) ∧
      (d.resetBy iRegister uVal → d.bufferInFlight = false)
  | .readString cTransfer cb =>
    d.scsi.pbBuf ≠ none →
      (d.toDevice → d.scsi.iBuf + d.cbTransfer cTransfer cb ≤ d.bufferSize) ∧
        (d.cbTransfer cTransfer cb = d.scsi.cbBuf → d.bufferInFlight = false)
  | .writeString cTransfer cb _ =>
    d.scsi.pbBuf ≠ none → d.toDevice →
      d.scsi.iBuf + d.cbTransfer cTransfer cb ≤ d.bufferSize
  | .setupRequest _ fAllocSg =>
    d.scsi.enmState = .commandReady ∧
      (if d.toDevice then d.scsi.pbBuf ≠ none ∧ (fAllocSg = false → d.bufferInFlight = false)
        else d.scsi.iBuf = 0 ∧ d.bufferInFlight = false)
  | .requestFinished i _ _ =>
    d.toDevice → ∀ request ∈ d.inFlight.eraseIdx i, request.pvSeg ≠ d.scsi.pbBuf

/-! ### The invariant -/

/-- The states of the interface in a sensible run. -/
structure Consistent (d : Device) : Prop where
  iCDB_le : d.scsi.iCDB ≤ d.scsi.cbCDB
  cbCDB_le : d.scsi.cbCDB ≤ VBOXSCSI_CDB_SIZE_MAX
  early : d.scsi.enmState ≠ .readCommand → d.scsi.enmState ≠ .commandReady → d.scsi.iCDB = 0
  command : d.scsi.enmState = .readCommand → d.scsi.cbCDB ≠ 0 → d.scsi.iCDB < d.scsi.cbCDB
  idle : d.scsi.enmState ≠ .commandReady → d.scsi.pbBuf = none ∧ d.scsi.iBuf = 0
  direction : d.scsi.enmState ≠ .noCommand → d.scsi.enmState ≠ .readTxdir →
    d.scsi.uTxDir ≤ VBOXSCSI_TXDIR_TO_DEVICE
  cbBuf_lt : d.scsi.cbBuf < 2 ^ 20
  buffer : d.scsi.pbBuf ≠ none → ∃ n, d.sizeOf d.scsi.pbBuf = some n ∧ n < 2 ^ 20 ∧
    d.scsi.iBuf ≤ n ∧ d.scsi.cbBuf ≤ n ∧ (¬ d.toDevice → d.scsi.iBuf + d.scsi.cbBuf = n)
  inFlight : ∀ request ∈ d.inFlight, request.pvSeg = d.scsi.pbBuf ∧ d.scsi.pbBuf ≠ none ∧
    request.cbSeg ≤ d.bufferSize
  log : ∀ access ∈ d.log, access.Safe

namespace Consistent

variable {d : Device} (c : Consistent d)
include c

/-- Without a request that points to the buffer there is none at all. -/
theorem inFlight_nil (free : d.bufferInFlight = false) : d.inFlight = [] := by
  rw [eq_nil_iff_forall_not_mem]
  intro request member
  have differs := List.any_eq_false.mp free request member
  exact differs (beq_iff_eq.mpr (c.inFlight request member).1)

theorem ready_of_buffer (present : d.scsi.pbBuf ≠ none) : d.scsi.enmState = .commandReady := by
  by_contra other
  exact present (c.idle other).1

/-- Freeing the buffer while nothing points to it is safe. -/
theorem memFree_log (free : d.bufferInFlight = false) :
    ∀ access ∈ (d.memFree d.scsi.pbBuf).log, access.Safe := by
  cases present : d.scsi.pbBuf with
  | none => exact c.log
  | some block =>
    have allocated : (d.heap block).isSome = true := by
      obtain ⟨n, size, -⟩ := c.buffer (by rw [present]; exact some_ne_none block)
      rw [present] at size
      cases here : d.heap block with
      | none => simp [Device.sizeOf, here] at size
      | some bytes => rfl
    intro access member
    rcases mem_cons.mp member with rfl | old
    · refine ⟨allocated, ?_⟩
      rw [← present]
      exact free
    · exact c.log access old

end Consistent

@[simp] theorem memFree_scsi (d : Device) (pb : Option Nat) : (d.memFree pb).scsi = d.scsi := by
  cases pb <;> rfl

@[simp] theorem memFree_inFlight (d : Device) (pb : Option Nat) :
    (d.memFree pb).inFlight = d.inFlight := by
  cases pb <;> rfl

/-- The states without a command and without a request. -/
theorem Consistent.of_idle {d : Device} (state : d.scsi.enmState = .noCommand)
    (cbCDB : d.scsi.cbCDB = 0) (iCDB : d.scsi.iCDB = 0) (pbBuf : d.scsi.pbBuf = none)
    (iBuf : d.scsi.iBuf = 0) (cbBuf : d.scsi.cbBuf < 2 ^ 20) (inFlight : d.inFlight = [])
    (log : ∀ access ∈ d.log, access.Safe) : Consistent d where
  iCDB_le := by rw [iCDB]; exact Nat.zero_le _
  cbCDB_le := by rw [cbCDB]; exact Nat.zero_le _
  early := fun _ _ => iCDB
  command := fun impossible => by rw [state] at impossible; cases impossible
  idle := fun _ => ⟨pbBuf, iBuf⟩
  direction := fun other => absurd state other
  cbBuf_lt := cbBuf
  buffer := fun present => absurd pbBuf present
  inFlight := fun request member => by rw [inFlight] at member; cases member
  log := log

theorem Consistent.reset {d : Device} (c : Consistent d) (free : d.bufferInFlight = false) :
    Consistent d.vboxscsiReset := by
  apply Consistent.of_idle
  case inFlight =>
    show (d.memFree d.scsi.pbBuf).inFlight = []
    rw [memFree_inFlight]
    exact c.inFlight_nil free
  case log => exact c.memFree_log free
  case cbBuf => exact (by decide : 0 < 2 ^ 20)
  all_goals rfl

theorem consistent_start (scsi : VBoxScsi) : Consistent (Device.vboxscsiInitialize scsi) := by
  apply Consistent.of_idle
  case cbBuf => exact (by decide : 0 < 2 ^ 20)
  case log =>
    intro access member
    cases member
  all_goals rfl

/-- The end of a transfer, which leaves `cbBuf` to its callers. -/
theorem Consistent.endTransfer {d : Device} (c : Consistent d) (free : d.bufferInFlight = false) :
    Consistent d.endTransfer := by
  apply Consistent.of_idle
  case inFlight =>
    show (d.memFree d.scsi.pbBuf).inFlight = []
    rw [memFree_inFlight]
    exact c.inFlight_nil free
  case log => exact c.memFree_log free
  case cbBuf =>
    show (d.memFree d.scsi.pbBuf).scsi.cbBuf < 2 ^ 20
    rw [memFree_scsi]
    exact c.cbBuf_lt
  all_goals rfl

/-! ### Command bytes -/

/-- A state in which a command is being received: no buffer, no request. -/
theorem Consistent.receiving {d d' : Device} (c : Consistent d)
    (old : d.scsi.enmState ≠ .commandReady) (iCDB : d'.scsi.iCDB = 0)
    (cbCDB : d'.scsi.cbCDB ≤ VBOXSCSI_CDB_SIZE_MAX)
    (direction : d'.scsi.enmState ≠ .noCommand → d'.scsi.enmState ≠ .readTxdir →
      d'.scsi.uTxDir ≤ VBOXSCSI_TXDIR_TO_DEVICE)
    (cbBuf : d'.scsi.cbBuf < 2 ^ 20) (pbBuf : d'.scsi.pbBuf = d.scsi.pbBuf)
    (iBuf : d'.scsi.iBuf = d.scsi.iBuf) (inFlight : d'.inFlight = d.inFlight)
    (log : d'.log = d.log) : Consistent d' where
  iCDB_le := by rw [iCDB]; exact Nat.zero_le _
  cbCDB_le := cbCDB
  early := fun _ _ => iCDB
  command := fun _ nonzero => by rw [iCDB]; exact Nat.pos_of_ne_zero nonzero
  idle := fun _ => by rw [pbBuf, iBuf]; exact c.idle old
  direction := direction
  cbBuf_lt := cbBuf
  buffer := fun present => absurd (pbBuf.trans (c.idle old).1) present
  inFlight := fun request member => by
    rw [inFlight] at member
    exact absurd (c.idle old).1 (c.inFlight request member).2.1
  log := fun access member => c.log access (log ▸ member)

theorem sizeOf_update_self (d : Device) (block : Nat) (bytes : List UInt8) :
    ((some block).bind fun b => (Function.update d.heap block (some bytes) b).map length) =
      some bytes.length := by
  simp

/-- A command is ready and there is no request yet: with a fresh buffer of the size announced, or
with none. -/
theorem Consistent.memAllocZ {d : Device} (fAlloc : Bool) (iCDB : d.scsi.iCDB ≤ d.scsi.cbCDB)
    (cbCDB : d.scsi.cbCDB ≤ VBOXSCSI_CDB_SIZE_MAX) (state : d.scsi.enmState = .commandReady)
    (direction : d.scsi.uTxDir ≤ VBOXSCSI_TXDIR_TO_DEVICE) (cbBuf : d.scsi.cbBuf < 2 ^ 20)
    (iBuf : d.scsi.iBuf = 0) (inFlight : d.inFlight = [])
    (log : ∀ access ∈ d.log, access.Safe) : Consistent (d.memAllocZ fAlloc d.scsi.cbBuf) := by
  have ready : ∀ d' : Device, d'.scsi.enmState = d.scsi.enmState →
      d'.scsi.enmState ≠ .commandReady → False := fun d' same other => other (same.trans state)
  cases fAlloc with
  | false =>
    exact
      { iCDB_le := iCDB
        cbCDB_le := cbCDB
        early := fun _ other => (ready _ rfl other).elim
        command := fun other => nomatch state.symm.trans other
        idle := fun other => (ready _ rfl other).elim
        direction := fun _ _ => direction
        cbBuf_lt := cbBuf
        buffer := fun present => (present rfl).elim
        inFlight := fun request (member : request ∈ d.inFlight) => by
          rw [inFlight] at member
          cases member
        log := log }
  | true =>
    have size := sizeOf_update_self d d.cAllocs (replicate d.scsi.cbBuf 0)
    rw [length_replicate] at size
    exact
      { iCDB_le := iCDB
        cbCDB_le := cbCDB
        early := fun _ other => (ready _ rfl other).elim
        command := fun other => nomatch state.symm.trans other
        idle := fun other => (ready _ rfl other).elim
        direction := fun _ _ => direction
        cbBuf_lt := cbBuf
        buffer := fun _ => by
          refine ⟨d.scsi.cbBuf, size, cbBuf, ?_, Nat.le_refl _, fun _ => ?_⟩
          · exact iBuf ▸ Nat.zero_le _
          · show d.scsi.iBuf + d.scsi.cbBuf = d.scsi.cbBuf
            rw [iBuf, Nat.zero_add]
        inFlight := fun request (member : request ∈ d.inFlight) => by
          rw [inFlight] at member
          cases member
        log := log }

/-- The busy flag and the count of answers are not part of the invariant. -/
theorem Consistent.moreData {d : Device} (c : Consistent d) : Consistent d.moreData :=
  { c with }

theorem consistent_writeCdb {d : Device} (c : Consistent d) (uVal : UInt8) (fAlloc : Bool)
    (state : d.scsi.enmState = .readCommand) (nonempty : d.scsi.cbCDB ≠ 0) :
    Consistent (d.writeCdb uVal fAlloc) := by
  have notReady : d.scsi.enmState ≠ .commandReady := by
    rw [state]
    exact nofun
  have noRequest : d.inFlight = [] := by
    rw [eq_nil_iff_forall_not_mem]
    intro request member
    exact (c.inFlight request member).2.1 (c.idle notReady).1
  have below : d.scsi.iCDB < d.scsi.cbCDB := c.command state nonempty
  have small : d.scsi.cbCDB ≤ 10 := c.cbCDB_le
  have next : (d.scsi.iCDB + 1) % 256 = d.scsi.iCDB + 1 := Nat.mod_eq_of_lt (by omega)
  have direction := c.direction (by rw [state]; exact nofun) (by rw [state]; exact nofun)
  have log : ∀ access ∈ Access.cdb d.scsi.iCDB :: d.log, access.Safe := by
    intro access member
    rcases mem_cons.mp member with rfl | old
    · show d.scsi.iCDB < 12
      omega
    · exact c.log access old
  unfold Device.writeCdb
  simp only [next]
  split
  case isTrue complete =>
    split
    case isTrue =>
      exact Consistent.memAllocZ fAlloc (Nat.le_of_eq complete) c.cbCDB_le rfl direction c.cbBuf_lt
        (c.idle notReady).2 noRequest log
    case isFalse =>
      have absent := (c.idle notReady).1
      apply Consistent.moreData
      exact
        { iCDB_le := Nat.le_of_eq complete
          cbCDB_le := c.cbCDB_le
          early := fun _ other => (other rfl).elim
          command := nofun
          idle := fun other => (other rfl).elim
          direction := fun _ _ => direction
          cbBuf_lt := c.cbBuf_lt
          buffer := fun present => (present absent).elim
          inFlight := fun request (member : request ∈ d.inFlight) => by
            rw [noRequest] at member
            cases member
          log := log }
  case isFalse incomplete =>
    exact
      { iCDB_le := below
        cbCDB_le := c.cbCDB_le
        early := fun other => (other state).elim
        command := fun _ _ => Nat.lt_of_le_of_ne below incomplete
        idle := fun _ => c.idle notReady
        direction := fun _ _ => direction
        cbBuf_lt := c.cbBuf_lt
        buffer := fun present => (present (c.idle notReady).1).elim
        inFlight := c.inFlight
        log := log }

theorem bufhi_lt (uVal : UInt8) : (uVal.toNat &&& 0xf0) <<< 12 < 2 ^ 20 := by
  have narrow : uVal.toNat &&& 0xf0 < 2 ^ 8 := Nat.lt_of_le_of_lt Nat.and_le_left uVal.toNat_lt
  rw [Nat.shiftLeft_eq]
  omega

theorem consistent_writeCommand {d : Device} (c : Consistent d) (uVal : UInt8) (fAlloc : Bool)
    (nonempty : d.scsi.enmState = .readCommand → d.scsi.cbCDB ≠ 0)
    (free : d.resetBy 0 uVal → d.bufferInFlight = false) :
    Consistent (d.writeCommand uVal fAlloc) := by
  unfold Device.writeCommand
  have byte : uVal.toNat < 256 := uVal.toNat_lt
  split
  case h_1 state =>
    have here : d.scsi.enmState ≠ .commandReady := by rw [state]; exact nofun
    have start := c.early (by rw [state]; exact nofun) here
    exact c.receiving here start c.cbCDB_le (fun _ other => (other rfl).elim) c.cbBuf_lt rfl
      rfl rfl rfl
  case h_2 state =>
    have here : d.scsi.enmState ≠ .commandReady := by rw [state]; exact nofun
    have start := c.early (by rw [state]; exact nofun) here
    split
    case isTrue bad =>
      have bad : uVal.toNat ≠ 0 ∧ uVal.toNat ≠ 1 := bad
      exact c.reset (free (.inr (.inr (.inl ⟨rfl, state, by omega⟩))))
    case isFalse good =>
      have good : ¬ (uVal.toNat ≠ 0 ∧ uVal.toNat ≠ 1) := good
      have direction : uVal.toNat ≤ 1 := by omega
      exact c.receiving here start c.cbCDB_le (fun _ _ => direction) c.cbBuf_lt rfl rfl rfl rfl
  case h_3 state =>
    have here : d.scsi.enmState ≠ .commandReady := by rw [state]; exact nofun
    have start := c.early (by rw [state]; exact nofun) here
    have direction := c.direction (by rw [state]; exact nofun) (by rw [state]; exact nofun)
    split
    case isTrue bad => exact c.reset (free (.inr (.inr (.inr ⟨rfl, state, bad⟩))))
    case isFalse good =>
      exact c.receiving here start (Nat.not_lt.mp good) (fun _ _ => direction)
        (bufhi_lt uVal) rfl rfl rfl rfl
  case h_4 state =>
    have here : d.scsi.enmState ≠ .commandReady := by rw [state]; exact nofun
    have start := c.early (by rw [state]; exact nofun) here
    have direction := c.direction (by rw [state]; exact nofun) (by rw [state]; exact nofun)
    exact c.receiving here start c.cbCDB_le (fun _ _ => direction)
      (Nat.or_lt_two_pow c.cbBuf_lt (Nat.lt_trans byte (by decide))) rfl rfl rfl rfl
  case h_5 state =>
    have here : d.scsi.enmState ≠ .commandReady := by rw [state]; exact nofun
    have start := c.early (by rw [state]; exact nofun) here
    have direction := c.direction (by rw [state]; exact nofun) (by rw [state]; exact nofun)
    have mid : uVal.toNat <<< 8 < 2 ^ 20 := by
      rw [Nat.shiftLeft_eq]
      omega
    exact c.receiving here start c.cbCDB_le (fun _ _ => direction)
      (Nat.or_lt_two_pow c.cbBuf_lt mid) rfl rfl rfl rfl
  case h_6 state => exact consistent_writeCdb c uVal fAlloc state (nonempty state)
  case h_7 => exact c

/-! ### Data -/

theorem sizeOf_store (d : Device) (pb p : Option Nat) (off : Nat) (bytes : List UInt8) :
    (d.store pb off bytes).sizeOf p = d.sizeOf p := by
  cases pb with
  | none => rfl
  | some block =>
    cases p with
    | none => rfl
    | some other =>
      by_cases same : other = block
      · subst same
        cases here : d.heap other <;> simp [Device.sizeOf, Device.store, here]
      · simp [Device.sizeOf, Device.store, Function.update_of_ne same]

section

variable (d : Device) (pb : Option Nat) (off : Nat) (bytes : List UInt8)

include d pb off bytes

theorem store_scsi : (d.store pb off bytes).scsi = d.scsi := by
  cases pb <;> rfl

theorem store_inFlight : (d.store pb off bytes).inFlight = d.inFlight := by
  cases pb <;> rfl

theorem store_log : (d.store pb off bytes).log = d.log := by
  cases pb <;> rfl

end

section

variable {d : Device} (c : Consistent d)

include c

/-- Bytes stored into a buffer change no size. -/
theorem Consistent.store (pb : Option Nat) (off : Nat) (bytes : List UInt8) :
    Consistent (d.store pb off bytes) := by
  have scsi := store_scsi d pb off bytes
  constructor
  case iCDB_le => rw [scsi]; exact c.iCDB_le
  case cbCDB_le => rw [scsi]; exact c.cbCDB_le
  case early => rw [scsi]; exact c.early
  case command => rw [scsi]; exact c.command
  case idle => rw [scsi]; exact c.idle
  case direction => rw [scsi]; exact c.direction
  case cbBuf_lt => rw [scsi]; exact c.cbBuf_lt
  case buffer =>
    unfold Device.toDevice
    rw [scsi, sizeOf_store]
    exact c.buffer
  case inFlight =>
    unfold Device.bufferSize
    rw [scsi, sizeOf_store, store_inFlight]
    exact c.inFlight
  case log => rw [store_log]; exact c.log

/-- Move over bytes that are left in the buffer. -/
theorem Consistent.move {n : Nat} (present : d.scsi.pbBuf ≠ none) (left : n ≤ d.scsi.cbBuf)
    (fits : d.toDevice → d.scsi.iBuf + n ≤ d.bufferSize) :
    Consistent ((d.record (.buffer (d.sizeOf d.scsi.pbBuf) d.scsi.iBuf n)).advance n) := by
  obtain ⟨size, sizeEq, small, iBuf, cbBuf, whole⟩ := c.buffer present
  have bufferSize : d.bufferSize = size := by rw [Device.bufferSize, sizeEq]; rfl
  have bound := c.cbBuf_lt
  have fitsAll : d.scsi.iBuf + n ≤ size := by
    by_cases out : d.toDevice
    · rw [← bufferSize]
      exact fits out
    · have := whole out
      omega
  have iBufEq : u32 (d.scsi.iBuf + n) = d.scsi.iBuf + n := u32_of_lt (by omega)
  have cbBufEq : u32Sub d.scsi.cbBuf n = d.scsi.cbBuf - n := if_pos left
  have state := c.ready_of_buffer present
  simp only [Device.record, Device.advance, iBufEq, cbBufEq]
  exact
    { iCDB_le := c.iCDB_le
      cbCDB_le := c.cbCDB_le
      early := c.early
      command := c.command
      idle := fun other => (other state).elim
      direction := c.direction
      cbBuf_lt := Nat.lt_of_le_of_lt (Nat.sub_le _ _) bound
      buffer := fun _ => by
        refine ⟨size, sizeEq, small, fitsAll, ?_, fun out => ?_⟩
        · exact Nat.le_trans (Nat.sub_le _ _) cbBuf
        · have := whole out
          show d.scsi.iBuf + n + (d.scsi.cbBuf - n) = size
          omega
      inFlight := c.inFlight
      log := by
        intro access member
        rcases mem_cons.mp member with rfl | member
        · exact left
        rcases mem_cons.mp member with rfl | member
        · show d.scsi.iBuf + n < 2 ^ 32
          omega
        rcases mem_cons.mp member with rfl | member
        · refine .inr ?_
          rw [sizeEq]
          exact fitsAll
        · exact c.log access member }

theorem consistent_readRegister {iRegister : UInt8}
    (sensible : Sensible d (.readRegister iRegister)) :
    Consistent (d.vboxscsiReadRegister iRegister) := by
  unfold Device.vboxscsiReadRegister
  split
  case isFalse => exact c
  case isTrue data =>
    unfold Device.readData
    split
    case isFalse => exact c
    case isTrue ready =>
      obtain ⟨present, fits, last⟩ := sensible data ready.1 ready.2
      have moved := c.move present ready.2 fits
      have rest : u32Sub d.scsi.cbBuf 1 = d.scsi.cbBuf - 1 := if_pos ready.2
      simp only
      split
      case isFalse => exact moved
      case isTrue done =>
        have one : d.scsi.cbBuf = 1 := by
          have done : u32Sub d.scsi.cbBuf 1 = 0 := done
          have := ready.2
          omega
        exact { moved.endTransfer (last one) with }

theorem consistent_readString {cTransfer : UInt64} {cb : UInt32}
    (sensible : Sensible d (.readString cTransfer cb)) :
    Consistent (d.vboxscsiReadString cTransfer cb) := by
  unfold Device.vboxscsiReadString
  split
  case isTrue => exact c
  case isFalse present =>
    obtain ⟨fits, last⟩ := sensible present
    have left : d.cbTransfer cTransfer cb ≤ d.scsi.cbBuf := Nat.min_le_right _ _
    have moved := c.move present left fits
    have rest : u32Sub d.scsi.cbBuf (d.cbTransfer cTransfer cb) =
      d.scsi.cbBuf - d.cbTransfer cTransfer cb := if_pos left
    simp only
    split
    case isFalse => exact moved
    case isTrue done =>
      have all : d.cbTransfer cTransfer cb = d.scsi.cbBuf := by
        have done : u32Sub d.scsi.cbBuf (d.cbTransfer cTransfer cb) = 0 := done
        omega
      exact moved.endTransfer (last all)

end

/-- The state after bytes were stored and moved over, in either order. -/
theorem store_record_advance (d : Device) (access : Access) (pb : Option Nat) (off n : Nat)
    (bytes : List UInt8) : ((d.record access).store pb off bytes).advance n =
      ((d.record access).advance n).store pb off bytes := by
  cases pb <;> rfl

theorem consistent_writeString {d : Device} (c : Consistent d) {cTransfer : UInt64} {cb : UInt32}
    {abSrc : List UInt8} (sensible : Sensible d (.writeString cTransfer cb abSrc)) :
    Consistent (d.vboxscsiWriteString cTransfer cb abSrc) := by
  unfold Device.vboxscsiWriteString
  split
  case isTrue => exact c
  case isFalse present =>
    have left : d.cbTransfer cTransfer cb ≤ d.scsi.cbBuf := Nat.min_le_right _ _
    simp only
    rw [store_record_advance]
    exact ((c.move present left (sensible present)).store _ _ _).moreData

theorem consistent_writeData {d : Device} (c : Consistent d) (uVal : UInt8)
    (fits : d.scsi.enmState = .commandReady → d.toDevice → d.scsi.iBuf < d.bufferSize)
    (free : d.resetBy 1 uVal → d.bufferInFlight = false) : Consistent (d.writeData uVal) := by
  unfold Device.writeData
  split
  case isTrue wrong => exact c.reset (free (.inr (.inl ⟨rfl, wrong⟩)))
  case isFalse right =>
    rw [not_or, not_not, not_not] at right
    obtain ⟨state, out⟩ := right
    have room := fits state out
    have present : d.scsi.pbBuf ≠ none := by
      intro absent
      rw [Device.bufferSize, absent] at room
      exact Nat.not_lt_zero _ room
    obtain ⟨size, sizeEq, small, iBuf, cbBuf, -⟩ := c.buffer present
    have bufferSize : d.bufferSize = size := by rw [Device.bufferSize, sizeEq]; rfl
    rw [bufferSize] at room
    have next : u32 (d.scsi.iBuf + 1) = d.scsi.iBuf + 1 := u32_of_lt (by omega)
    have stored := c.store d.scsi.pbBuf d.scsi.iBuf [uVal]
    obtain ⟨block, here⟩ := ne_none_iff_exists'.mp present
    rw [here] at stored sizeEq ⊢
    -- Only the position and the log differ from the state with the byte stored.
    have written : Consistent
        { d.store (some block) d.scsi.iBuf [uVal] with
          scsi := { d.scsi with iBuf := d.scsi.iBuf + 1 }
          log := .increase d.scsi.iBuf 1 ::
            .buffer (d.sizeOf (some block)) d.scsi.iBuf 1 :: d.log } :=
      { iCDB_le := c.iCDB_le
        cbCDB_le := c.cbCDB_le
        early := c.early
        command := c.command
        idle := fun other => (other state).elim
        direction := c.direction
        cbBuf_lt := c.cbBuf_lt
        buffer := fun _ => by
          refine ⟨size, ?_, small, room, cbBuf, fun other => (other out).elim⟩
          have kept := sizeOf_store d (some block) (some block) d.scsi.iBuf [uVal]
          show (d.store (some block) d.scsi.iBuf [uVal]).sizeOf d.scsi.pbBuf = some size
          rw [here, kept, sizeEq]
        inFlight := stored.inFlight
        log := by
          intro access member
          rcases mem_cons.mp member with rfl | member
          · show d.scsi.iBuf + 1 < 2 ^ 32
            omega
          rcases mem_cons.mp member with rfl | member
          · refine .inr ?_
            rw [sizeEq]
            exact room
          · exact c.log access member }
    simp only [Device.record, Device.store, next]
    split
    · exact written.moreData
    · exact written

theorem consistent_writeRegister {d : Device} (c : Consistent d) {iRegister uVal : UInt8}
    {fAlloc : Bool} (sensible : Sensible d (.writeRegister iRegister uVal fAlloc)) :
    Consistent (d.vboxscsiWriteRegister iRegister uVal fAlloc) := by
  obtain ⟨nonempty, fits, free⟩ := sensible
  unfold Device.vboxscsiWriteRegister
  split
  case isTrue zero =>
    subst zero
    exact consistent_writeCommand c uVal fAlloc (nonempty rfl) free
  case isFalse =>
    split
    case isTrue one =>
      subst one
      exact consistent_writeData c uVal (fits rfl) free
    case isFalse =>
      split
      case isTrue => exact { c with }
      case isFalse =>
        split
        case isTrue three => exact c.reset (free (.inl three))
        case isFalse => exact c

/-! ### Requests -/

theorem bufferInFlight_of_nil {d : Device} (none : d.inFlight = []) : d.bufferInFlight = false := by
  rw [Device.bufferInFlight, Device.referenced, none]
  rfl

theorem Consistent.sendRequest {d : Device} (c : Consistent d) {fAllocSg : Bool}
    (present : d.scsi.pbBuf ≠ none) (free : fAllocSg = false → d.bufferInFlight = false) :
    Consistent (d.sendRequest fAllocSg) := by
  obtain ⟨size, sizeEq, -, -, cbBuf, -⟩ := c.buffer present
  have bufferSize : d.bufferSize = size := by rw [Device.bufferSize, sizeEq]; rfl
  cases fAllocSg with
  | true =>
    exact
      { iCDB_le := c.iCDB_le
        cbCDB_le := c.cbCDB_le
        early := c.early
        command := c.command
        idle := c.idle
        direction := c.direction
        cbBuf_lt := c.cbBuf_lt
        buffer := c.buffer
        inFlight := by
          intro request member
          rcases mem_append.mp member with old | new
          · exact c.inFlight request old
          · rw [mem_singleton.mp new]
            exact ⟨rfl, present, bufferSize.symm ▸ cbBuf⟩
        log := by
          intro access member
          rcases mem_cons.mp member with rfl | old
          · refine .inr ?_
            rw [sizeEq, Nat.zero_add]
            exact cbBuf
          · exact c.log access old }
  | false =>
    have unused := free rfl
    have state := c.ready_of_buffer present
    have log := c.memFree_log unused
    have noRequest := c.inFlight_nil unused
    unfold Device.sendRequest
    simp only [Bool.false_eq_true, if_false]
    rw [memFree_scsi]
    exact
      { iCDB_le := c.iCDB_le
        cbCDB_le := c.cbCDB_le
        early := c.early
        command := c.command
        idle := fun other => (other state).elim
        direction := c.direction
        cbBuf_lt := c.cbBuf_lt
        buffer := fun absent => (absent rfl).elim
        inFlight := by
          intro request member
          have member : request ∈ (d.memFree d.scsi.pbBuf).inFlight := member
          rw [memFree_inFlight, noRequest] at member
          cases member
        log := log }

theorem consistent_setupRequest {d : Device} (c : Consistent d) {fAllocBuf fAllocSg : Bool}
    (sensible : Sensible d (.setupRequest fAllocBuf fAllocSg)) :
    Consistent (d.vboxscsiSetupRequest fAllocBuf fAllocSg) := by
  obtain ⟨state, rest⟩ := sensible
  have direction : d.scsi.uTxDir ≤ 1 :=
    c.direction (by rw [state]; exact nofun) (by rw [state]; exact nofun)
  unfold Device.vboxscsiSetupRequest
  -- Clearing the last result touches nothing the invariant speaks about.
  have c' : Consistent
      { d with scsi := { d.scsi with rcCompletion := 0 }, cMoreData := d.cMoreData - 1 } :=
    { c with }
  simp only
  split
  case isTrue into =>
    have into : d.scsi.uTxDir = 0 := into
    have notOut : ¬ d.toDevice := by
      rw [Device.toDevice, into]
      exact nofun
    rw [if_neg notOut] at rest
    obtain ⟨iBuf, unused⟩ := rest
    have log := c'.memFree_log unused
    have noRequest := c'.inFlight_nil unused
    have fresh := Consistent.memAllocZ
      (d := Device.memFree
        { d with scsi := { d.scsi with rcCompletion := 0 }, cMoreData := d.cMoreData - 1 }
        d.scsi.pbBuf) fAllocBuf (by rw [memFree_scsi]; exact c.iCDB_le)
      (by rw [memFree_scsi]; exact c.cbCDB_le) (by rw [memFree_scsi]; exact state)
      (by rw [memFree_scsi]; exact direction) (by rw [memFree_scsi]; exact c.cbBuf_lt)
      (by rw [memFree_scsi]; exact iBuf) (by rw [memFree_inFlight]; exact noRequest) log
    rw [memFree_scsi] at fresh
    split
    case isTrue => exact fresh
    case isFalse present =>
      apply fresh.sendRequest present
      intro _
      apply bufferInFlight_of_nil
      cases fAllocBuf <;>
      · show (Device.memFree _ _).inFlight = []
        rw [memFree_inFlight]
        exact noRequest
  case isFalse out =>
    have out : d.toDevice := by
      have out : ¬ d.scsi.uTxDir = 0 := out
      show d.scsi.uTxDir = 1
      omega
    rw [if_pos out] at rest
    exact c'.sendRequest rest.1 rest.2

theorem consistent_requestFinished {d : Device} (c : Consistent d) {i : Nat} {rcCompletion : Int}
    {abData : List UInt8} (sensible : Sensible d (.requestFinished i rcCompletion abData)) :
    Consistent (d.vboxscsiRequestFinished i rcCompletion abData) := by
  unfold Device.vboxscsiRequestFinished
  split
  case h_1 => exact c
  case h_2 request taken =>
    have stored := c.store request.pvSeg 0 (abData.take request.cbSeg)
    have sensible : d.toDevice → ∀ other ∈ d.inFlight.eraseIdx i, other.pvSeg ≠ d.scsi.pbBuf :=
      sensible
    generalize stateEq : d.store request.pvSeg 0 (abData.take request.cbSeg) = d' at stored ⊢
    have inFlight : d'.inFlight = d.inFlight := by rw [← stateEq, store_inFlight]
    have scsi : d'.scsi = d.scsi := by rw [← stateEq, store_scsi]
    have removed : Consistent { d' with inFlight := d'.inFlight.eraseIdx i } :=
      { stored with
        inFlight := fun other member => stored.inFlight other (mem_of_mem_eraseIdx member) }
    simp only
    split
    case isFalse => exact { removed with }
    case isTrue out =>
      have out : d.toDevice := by
        rw [Device.toDevice, ← scsi]
        exact out
      have noRequest : d'.inFlight.eraseIdx i = [] := by
        rw [inFlight, eq_nil_iff_forall_not_mem]
        intro other member
        exact sensible out other member (c.inFlight other (mem_of_mem_eraseIdx member)).1
      have ended := removed.endTransfer (bufferInFlight_of_nil noRequest)
      exact
        { ended with
          cbBuf_lt := Nat.two_pow_pos 20
          idle := ended.idle
          buffer := fun absent => (absent rfl).elim }

/-! ### Runs -/

theorem Consistent.step {d d' : Device} {op : Op} (c : Consistent d) (sensible : Sensible d op)
    (taken : step d op = some d') : Consistent d' := by
  cases op with
  | readRegister iRegister =>
    rw [← some.inj taken]
    exact consistent_readRegister c sensible
  | writeRegister iRegister uVal fAlloc =>
    rw [← some.inj taken]
    exact consistent_writeRegister c sensible
  | readString cTransfer cb =>
    rw [← some.inj taken]
    exact consistent_readString c sensible
  | writeString cTransfer cb abSrc =>
    rw [← some.inj taken]
    exact consistent_writeString c sensible
  | setupRequest fAllocBuf fAllocSg =>
    rw [Scsi.step] at taken
    split at taken
    · rw [← some.inj taken]
      exact consistent_setupRequest c sensible
    · cases taken
  | requestFinished i rcCompletion abData =>
    rw [Scsi.step] at taken
    split at taken
    · rw [← some.inj taken]
      exact consistent_requestFinished c sensible
    · cases taken

/-- What the interface promises of a state: every access so far was safe, the position in the
command descriptor block is inside the part announced, and the buffer of every request in flight
is allocated and long enough for its segment. -/
structure SafeState (d : Device) : Prop where
  accesses : ∀ access ∈ d.log, access.Safe
  iCDB_le : d.scsi.iCDB ≤ d.scsi.cbCDB
  cbCDB_le : d.scsi.cbCDB < sizeofCdb
  segments : ∀ request ∈ d.inFlight, ∃ n, d.sizeOf request.pvSeg = some n ∧ request.cbSeg ≤ n

theorem Consistent.safe {d : Device} (c : Consistent d) : SafeState d where
  accesses := c.log
  iCDB_le := c.iCDB_le
  cbCDB_le := Nat.lt_of_le_of_lt c.cbCDB_le (by decide)
  segments := fun request member => by
    obtain ⟨same, present, fits⟩ := c.inFlight request member
    obtain ⟨n, size, -⟩ := c.buffer present
    refine ⟨n, same ▸ size, ?_⟩
    rwa [Device.bufferSize, size] at fits

/-- In a run of sensible steps, from an interface that held anything before it was initialised,
no access leaves what it accesses. -/
theorem scsi_run_safe {scsi : VBoxScsi} {ops : List Op} {d : Device}
    (run : Run (Guarded Sensible fun d op d' => step d op = some d')
      (Device.vboxscsiInitialize scsi) ops d) : SafeState d :=
  (run.invariant Consistent (fun c taken => c.step taken.1 taken.2)
    (consistent_start scsi)).safe

instance (d : Device) (op : Op) : Decidable (Sensible d op) := by
  cases op <;> unfold Sensible <;> infer_instance

/-- An interface before its initialisation, all zero. -/
def blank : VBoxScsi :=
  { regIdentify := 0, uTargetDevice := 0, uTxDir := 0, cbCDB := 0, abCDB := [], iCDB := 0,
    pbBuf := none, cbBuf := 0, iBuf := 0, rcCompletion := 0, fBusy := false,
    enmState := .noCommand }

/-- A command register byte. -/
def commandByte (uVal : UInt8) : Op := .writeRegister 0 uVal true

/-- A command that reads one byte from the device, up to the byte in the guest's hands. -/
def readOneByte : List Op :=
  [0, 0, 1, 1, 0, 0x12].map commandByte ++
    [.setupRequest true true, .requestFinished 0 0 [7], .readRegister 1]

theorem scsi_run_safe_readOneByte :
    ∃ d, Run (Guarded Sensible fun d op d' => step d op = some d')
      (Device.vboxscsiInitialize blank) readOneByte d ∧ SafeState d ∧ d.log.length = 6 := by
  obtain ⟨d, run, accesses⟩ := Run.exists_of_follow Sensible step
    (Device.vboxscsiInitialize blank) readOneByte (fun d => d.log.length = 6) (by decide +kernel)
  exact ⟨d, run, scsi_run_safe run, accesses⟩

/-- A command whose descriptor block is announced as empty, with 13 command bytes behind it. -/
def emptyCdb : List Op := (List.replicate 18 0).map commandByte

/-- The bytes of an empty command descriptor block are written without end: the thirteenth lies
outside `abCDB`. -/
theorem exists_run_outside_cdb :
    ¬ ∀ (scsi : VBoxScsi) (ops : List Op) (d : Device),
      Run (fun d op d' => step d op = some d') (Device.vboxscsiInitialize scsi) ops d →
        SafeState d := by
  intro all
  obtain ⟨d, run, outside⟩ := Run.exists_of_follow (fun _ _ => True) step
    (Device.vboxscsiInitialize blank) emptyCdb (fun d => Access.cdb 12 ∈ d.log)
    (by decide +kernel)
  have safe := (all blank emptyCdb d (run.mono And.right)).accesses _ outside
  exact Nat.lt_irrefl 12 safe

end VBox.Devices.Scsi
