import Mathlib.Algebra.GroupWithZero.Nat
import VBox.Devices.VBoxScsiRuns

/-!
A command from its first byte to its last byte of data.

The register and the string path move the same position, but the string path takes what it moved off
the size of the buffer as well, and a write by string asks for the request each time. For a read
nothing is lost by that: the size is what is left. For a write the request is set up from the size.
-/

namespace VBox.Devices.Scsi

open List Option Function
open VBox.Storage (u32 u32Sub u32_of_lt)

/-! ### Commands and moves -/

/-- A command: where it goes, its descriptor block and the size of its buffer. -/
structure Command where
  uTargetDevice : UInt8
  toDevice : Bool
  cdb : List UInt8
  cbBuf : Nat
  cdbSize : 1 ≤ cdb.length ∧ cdb.length ≤ VBOXSCSI_CDB_SIZE_MAX
  bufSize : 0 < cbBuf ∧ cbBuf < 2 ^ 20

namespace Command

variable (c : Command)

def uTxDir : Nat := if c.toDevice then VBOXSCSI_TXDIR_TO_DEVICE else VBOXSCSI_TXDIR_FROM_DEVICE

/-- The bytes written to the command register in front of the descriptor block. -/
def header : List UInt8 :=
  [c.uTargetDevice, UInt8.ofNat c.uTxDir, UInt8.ofNat (c.cbBuf / 65536 * 16 + c.cdb.length),
    UInt8.ofNat c.cbBuf, UInt8.ofNat (c.cbBuf / 256)]

end Command

/-- An access that moves data: a byte through the register, or a string. -/
inductive Move where
  | register
  | string (cTransfer : UInt64) (cb : UInt32)
  deriving DecidableEq

/-- The bytes an access asks to move. -/
def Move.count : Move → Nat
  | .register => 1
  | .string cTransfer cb => cTransfer.toNat * cb.toNat

namespace Device

/-- Bytes to the command register. -/
def sendBytes (d : Device) (bytes : List UInt8) : Device :=
  bytes.foldl (fun d uVal => d.vboxscsiWriteRegister 0 uVal true) d

def sendCommand (d : Device) (c : Command) : Device := d.sendBytes (c.header ++ c.cdb)

/-- The guest writes the next of its bytes. -/
def writeMove (d : Device) (m : Move) (data : List UInt8) : Device :=
  match m with
  | .register => d.vboxscsiWriteRegister 1 (data.headD 0) true
  | .string cTransfer cb => d.vboxscsiWriteString cTransfer cb (data.take m.count)

def writeMoves : Device → List Move → List UInt8 → Device
  | d, [], _ => d
  | d, m :: moves, data => writeMoves (d.writeMove m data) moves (data.drop m.count)

/-- The bytes a string read copies to the guest. -/
def stringBytes (d : Device) (cTransfer : UInt64) (cb : UInt32) : List UInt8 :=
  (((d.scsi.pbBuf.bind d.heap).getD []).drop d.scsi.iBuf).take (d.cbTransfer cTransfer cb)

/-- The guest reads, and what it gets. -/
def readMove (d : Device) : Move → List UInt8 × Device
  | .register => ([UInt8.ofNat (d.readValue 1).toNat], d.vboxscsiReadRegister 1)
  | .string cTransfer cb => (d.stringBytes cTransfer cb, d.vboxscsiReadString cTransfer cb)

def readMoves : Device → List Move → List UInt8 × Device
  | d, [] => ([], d)
  | d, m :: moves =>
    ((d.readMove m).1 ++ ((d.readMove m).2.readMoves moves).1, ((d.readMove m).2.readMoves moves).2)

end Device

/-! ### What a transfer should do -/

/-- Nothing is going on, and a command can be sent. -/
structure Idle (d : Device) : Prop where
  state : d.scsi.enmState = .noCommand
  abCDB : d.scsi.abCDB = List.replicate sizeofCdb 0
  iCDB : d.scsi.iCDB = 0
  iBuf : d.scsi.iBuf = 0
  pbBuf : d.scsi.pbBuf = none
  fBusy : d.scsi.fBusy = false
  inFlight : d.inFlight = []
  cMoreData : d.cMoreData = 0

/-- Each access answers `VERR_MORE_DATA` if it moves the last byte, and no other does. -/
def SignalsOnce : Device → List Move → List UInt8 → Prop
  | _, [], _ => True
  | d, m :: moves, data =>
    ((d.writeMove m data).cMoreData ≠ d.cMoreData ↔ data ≠ [] ∧ data.length = m.count) ∧
      SignalsOnce (d.writeMove m data) moves (data.drop m.count)

/-- The one request in flight has the descriptor block and a buffer with the bytes. -/
def Presents (c : Command) (data : List UInt8) (d : Device) : Prop :=
  ∃ request, d.inFlight = [request] ∧ request.uTargetDevice = c.uTargetDevice.toNat ∧
    d.scsi.abCDB.take request.cbCDB = c.cdb.map UInt8.toNat ∧ request.cbSeg = c.cbBuf ∧
    request.pvSeg.bind d.heap = some data

/-- A write: one signal behind the last byte, and then the request. -/
structure Writes (d : Device) (c : Command) (data : List UInt8) (moves : List Move) : Prop where
  silent : (d.sendCommand c).cMoreData = 0
  signals : SignalsOnce (d.sendCommand c) moves data
  presents : Presents c data
    (((d.sendCommand c).writeMoves moves data).vboxscsiSetupRequest true true)

/-- A command to read, served by the device with some bytes. -/
def Device.served (d : Device) (c : Command) (data : List UInt8) (rcCompletion : Int) : Device :=
  ((d.sendCommand c).vboxscsiSetupRequest true true).vboxscsiRequestFinished 0 rcCompletion data

/-- A read: the device's bytes in order, and no command any more behind the last. -/
structure Reads (d : Device) (c : Command) (data : List UInt8) (rcCompletion : Int)
    (moves : List Move) : Prop where
  signals : (d.sendCommand c).cMoreData = 1
  bytes : ((d.served c data rcCompletion).readMoves moves).1 = data
  ends : ∀ first rest, moves = first ++ rest →
    (((d.served c data rcCompletion).readMoves first).2.scsi.enmState = .noCommand ↔
      (first.map Move.count).sum = c.cbBuf)
  idle : Idle ((d.served c data rcCompletion).readMoves moves).2

def Delivers (d : Device) (c : Command) (data : List UInt8) (rcCompletion : Int)
    (moves : List Move) : Prop :=
  if c.toDevice then Writes d c data moves else Reads d c data rcCompletion moves

/-! ### Sending a command -/

variable {done : List UInt8}

section Sending

variable {d : Device} {c : Command} {data : List UInt8}

/-- The registers hold the header of a command. -/
structure Bears (c : Command) (d : Device) : Prop where
  uTargetDevice : d.scsi.uTargetDevice = c.uTargetDevice.toNat
  uTxDir : d.scsi.uTxDir = c.uTxDir
  cbCDB : d.scsi.cbCDB = c.cdb.length

/-- Some bytes of the descriptor block are in. -/
structure Receiving (c : Command) (done : List UInt8) (d : Device) : Prop where
  bears : Bears c d
  state : d.scsi.enmState = .readCommand
  abCDB : d.scsi.abCDB = done.map UInt8.toNat ++ List.replicate (sizeofCdb - done.length) 0
  iCDB : d.scsi.iCDB = done.length
  cbBuf : d.scsi.cbBuf = c.cbBuf
  iBuf : d.scsi.iBuf = 0
  pbBuf : d.scsi.pbBuf = none
  fBusy : d.scsi.fBusy = false
  inFlight : d.inFlight = []
  cMoreData : d.cMoreData = 0

/-- The whole descriptor block is in, and some bytes of the data are moved. -/
structure Ready (c : Command) (moved : Nat) (d : Device) : Prop where
  bears : Bears c d
  state : d.scsi.enmState = .commandReady
  abCDB : d.scsi.abCDB.take c.cdb.length = c.cdb.map UInt8.toNat
  iBuf : d.scsi.iBuf = moved
  inFlight : d.inFlight = []

/-- The size of the buffer from its three parts. -/
theorem size_parts (n : Nat) : n / 65536 * 65536 ||| n % 256 ||| (n / 256 % 256) <<< 8 = n := by
  have low : (n / 256 % 256) <<< 8 ||| n % 256 = 2 ^ 8 * (n / 256 % 256) + n % 256 := by
    rw [Nat.shiftLeft_eq, Nat.mul_comm]
    exact (Nat.two_pow_add_eq_or_of_lt (Nat.mod_lt n (by decide)) _).symm
  have below : 2 ^ 8 * (n / 256 % 256) + n % 256 < 2 ^ 16 := by omega
  rw [Nat.or_assoc, Nat.or_comm (n % 256), low, Nat.mul_comm (n / 65536)]
  rw [show 65536 = 2 ^ 16 from rfl, ← Nat.two_pow_add_eq_or_of_lt below]
  omega

theorem sizeByte_parts (high len : Nat) (smallHigh : high < 16) (smallLen : len < 16) :
    (UInt8.ofNat (high * 16 + len)).toNat &&& 0x0f = len ∧
      ((UInt8.ofNat (high * 16 + len)).toNat &&& 0xf0) <<< 12 = high * 65536 := by
  have all : ∀ high < 16, ∀ len < 16, (UInt8.ofNat (high * 16 + len)).toNat &&& 0x0f = len ∧
      ((UInt8.ofNat (high * 16 + len)).toNat &&& 0xf0) <<< 12 = high * 65536 := by decide +kernel
  exact all high smallHigh len smallLen

/-- The header. -/
theorem receiving_header (idle : Idle d) : Receiving c [] (d.sendBytes c.header) := by
  obtain ⟨cdbLow, cdbHigh⟩ := c.cdbSize
  obtain ⟨_, small⟩ := c.bufSize
  have len : c.cdb.length < 16 := Nat.lt_of_le_of_lt cdbHigh (by decide)
  obtain ⟨size, high⟩ := sizeByte_parts (c.cbBuf / 65536) c.cdb.length (by omega) len
  have dir : (UInt8.ofNat c.uTxDir).toNat = c.uTxDir := by
    unfold Command.uTxDir
    split <;> rfl
  have either : ¬ (c.uTxDir ≠ VBOXSCSI_TXDIR_FROM_DEVICE ∧
      c.uTxDir ≠ VBOXSCSI_TXDIR_TO_DEVICE) := by
    unfold Command.uTxDir
    split <;> decide
  have parts := size_parts c.cbBuf
  have lsb : (UInt8.ofNat c.cbBuf).toNat = c.cbBuf % 256 := rfl
  have mid : (UInt8.ofNat (c.cbBuf / 256)).toNat = c.cbBuf / 256 % 256 := rfl
  have notLong : ¬ VBOXSCSI_CDB_SIZE_MAX < c.cdb.length := Nat.not_lt.mpr cdbHigh
  have sent : d.sendBytes c.header =
      { d with
        scsi := { d.scsi with
          uTargetDevice := c.uTargetDevice.toNat
          uTxDir := c.uTxDir
          cbCDB := c.cdb.length
          cbBuf := c.cbBuf
          enmState := .readCommand } } := by
    simp only [Device.sendBytes, Command.header, foldl_cons, foldl_nil,
      Device.vboxscsiWriteRegister, if_true, Device.writeCommand, idle.state, dir, if_neg either,
      size, if_neg notLong, high, lsb, mid, parts]
  rw [sent]
  exact ⟨⟨rfl, rfl, rfl⟩, rfl, idle.abCDB, idle.iCDB, rfl, idle.iBuf, idle.pbBuf, idle.fBusy,
    idle.inFlight, idle.cMoreData⟩

variable {uVal : UInt8}

theorem set_abCDB {abCDB : List Nat}
    (same : abCDB = done.map UInt8.toNat ++ replicate (sizeofCdb - done.length) 0)
    (inside : done.length < sizeofCdb) :
    abCDB.set done.length uVal.toNat = (done ++ [uVal]).map UInt8.toNat ++
      replicate (sizeofCdb - (done ++ [uVal]).length) 0 := by
  have next : sizeofCdb - done.length = sizeofCdb - (done.length + 1) + 1 := by omega
  rw [same, set_append_right _ _ (Nat.le_of_eq (length_map ..)), length_map,
    Nat.sub_self, next, replicate_succ, set_cons_zero, map_append,
    append_assoc, length_append, length_singleton]
  rfl

/-- A byte of the descriptor block with more behind it. -/
theorem Receiving.more (receiving : Receiving c done d) (more : done.length + 1 < c.cdb.length) :
    Receiving c (done ++ [uVal]) (d.vboxscsiWriteRegister 0 uVal true) := by
  have inside : done.length < sizeofCdb := Nat.lt_of_lt_of_le (Nat.lt_of_succ_lt more)
    (Nat.le_trans c.cdbSize.2 (by decide))
  have narrow : (done.length + 1) % 256 = done.length + 1 :=
    Nat.mod_eq_of_lt (Nat.lt_of_le_of_lt inside (by decide))
  have stays : done.length + 1 ≠ c.cdb.length := Nat.ne_of_lt more
  have sent : d.vboxscsiWriteRegister 0 uVal true =
      { d with
        scsi := { d.scsi with
          abCDB := d.scsi.abCDB.set done.length uVal.toNat, iCDB := done.length + 1 }
        log := .cdb done.length :: d.log } := by
    simp only [Device.vboxscsiWriteRegister, if_true, Device.writeCommand, receiving.state,
      Device.writeCdb, receiving.iCDB, narrow, receiving.bears.cbCDB, if_neg stays]
  rw [sent]
  refine ⟨⟨receiving.bears.uTargetDevice, receiving.bears.uTxDir, receiving.bears.cbCDB⟩,
    receiving.state, ?_, ?_, receiving.cbBuf, receiving.iBuf, receiving.pbBuf, receiving.fBusy,
    receiving.inFlight, receiving.cMoreData⟩
  · exact set_abCDB receiving.abCDB inside
  · rw [length_append, length_singleton]

/-- The last byte of the descriptor block. -/
theorem Receiving.last (receiving : Receiving c done d) (last : c.cdb = done ++ [uVal]) :
    Ready c 0 (d.vboxscsiWriteRegister 0 uVal true) ∧
      (d.vboxscsiWriteRegister 0 uVal true).scsi.cbBuf = c.cbBuf ∧
      if c.toDevice then
        (d.vboxscsiWriteRegister 0 uVal true).cMoreData = 0 ∧
        (d.vboxscsiWriteRegister 0 uVal true).scsi.pbBuf.bind
          (d.vboxscsiWriteRegister 0 uVal true).heap = some (replicate c.cbBuf 0)
      else
        (d.vboxscsiWriteRegister 0 uVal true).cMoreData = 1 ∧
        (d.vboxscsiWriteRegister 0 uVal true).scsi.pbBuf = none := by
  have length : c.cdb.length = done.length + 1 := by
    rw [last, length_append, length_singleton]
  have inside : done.length < sizeofCdb := Nat.lt_of_lt_of_le (length ▸ Nat.lt_succ_self _)
    (Nat.le_trans c.cdbSize.2 (by decide))
  have narrow : (done.length + 1) % 256 = done.length + 1 :=
    Nat.mod_eq_of_lt (Nat.lt_of_le_of_lt inside (by decide))
  have block : (d.scsi.abCDB.set done.length uVal.toNat).take c.cdb.length =
      c.cdb.map UInt8.toNat := by
    rw [set_abCDB receiving.abCDB inside, ← last, take_left' (length_map ..)]
  have bears := receiving.bears
  cases dir : c.toDevice with
  | true =>
    have txDir : d.scsi.uTxDir = VBOXSCSI_TXDIR_TO_DEVICE := by
      rw [bears.uTxDir, Command.uTxDir, if_pos dir]
    have sent : d.vboxscsiWriteRegister 0 uVal true =
        { d with
          scsi := { d.scsi with
            abCDB := d.scsi.abCDB.set done.length uVal.toNat
            iCDB := done.length + 1
            enmState := .commandReady
            pbBuf := some d.cAllocs }
          heap := update d.heap d.cAllocs (some (replicate c.cbBuf 0))
          cAllocs := d.cAllocs + 1
          log := .cdb done.length :: d.log } := by
      simp only [Device.vboxscsiWriteRegister, if_true, Device.writeCommand, receiving.state,
        Device.writeCdb, receiving.iCDB, narrow, bears.cbCDB, length, txDir, Device.memAllocZ,
        receiving.cbBuf]
    rw [sent]
    refine ⟨⟨⟨bears.uTargetDevice, bears.uTxDir, bears.cbCDB⟩, rfl, block, receiving.iBuf,
      receiving.inFlight⟩, receiving.cbBuf, receiving.cMoreData, ?_⟩
    exact update_self ..
  | false =>
    have txDir : d.scsi.uTxDir = VBOXSCSI_TXDIR_FROM_DEVICE := by
      rw [bears.uTxDir, Command.uTxDir, dir]
      rfl
    have from_device : VBOXSCSI_TXDIR_FROM_DEVICE ≠ VBOXSCSI_TXDIR_TO_DEVICE := by decide
    have sent : d.vboxscsiWriteRegister 0 uVal true =
        { d with
          scsi := { d.scsi with
            abCDB := d.scsi.abCDB.set done.length uVal.toNat
            iCDB := done.length + 1
            enmState := .commandReady
            fBusy := true }
          cMoreData := 1
          log := .cdb done.length :: d.log } := by
      simp only [Device.vboxscsiWriteRegister, if_true, Device.writeCommand, receiving.state,
        Device.writeCdb, receiving.iCDB, narrow, bears.cbCDB, length, txDir, if_neg from_device,
        Device.moreData, receiving.cMoreData]
    rw [sent]
    exact ⟨⟨⟨bears.uTargetDevice, bears.uTxDir, bears.cbCDB⟩, rfl, block, receiving.iBuf,
      receiving.inFlight⟩, receiving.cbBuf, rfl, receiving.pbBuf⟩

/-- The interface behind a command. -/
structure Loaded (c : Command) (d : Device) : Prop where
  ready : Ready c 0 d
  cbBuf : d.scsi.cbBuf = c.cbBuf
  toDevice : c.toDevice = true →
    d.cMoreData = 0 ∧ d.scsi.pbBuf.bind d.heap = some (List.replicate c.cbBuf 0)
  fromDevice : c.toDevice = false → d.cMoreData = 1 ∧ d.scsi.pbBuf = none

theorem loaded_sendBytes {rest : List UInt8} (receiving : Receiving c done d)
    (all : c.cdb = done ++ rest) (some : rest ≠ []) : Loaded c (d.sendBytes rest) := by
  induction rest generalizing d done with
  | nil => exact absurd rfl some
  | cons uVal rest ih =>
    by_cases last : rest = []
    · subst last
      obtain ⟨ready, cbBuf, buffer⟩ := receiving.last all
      refine ⟨ready, cbBuf, fun dir => ?_, fun dir => ?_⟩
      · rwa [if_pos dir] at buffer
      · rwa [dir, if_neg Bool.false_ne_true] at buffer
    · have more : done.length + 1 < c.cdb.length := by
        have positive := length_pos_iff.mpr last
        rw [all, length_append, length_cons]
        omega
      exact ih (receiving.more more) (by rw [all, append_assoc, singleton_append]) last

theorem loaded_sendCommand (idle : Idle d) : Loaded c (d.sendCommand c) := by
  have nonempty : c.cdb ≠ [] := ne_nil_of_length_pos c.cdbSize.1
  rw [Device.sendCommand, Device.sendBytes, foldl_append]
  exact loaded_sendBytes (receiving_header idle) (nil_append _).symm nonempty

end Sending

/-! ### Writing -/

section Writing

variable {d : Device} {c : Command} {data rest : List UInt8} {moves : List Move}

/-- Some of the guest's bytes are in the buffer, through the register. -/
structure Filling (c : Command) (done : List UInt8) (d : Device) : Prop where
  ready : Ready c done.length d
  cbBuf : d.scsi.cbBuf = c.cbBuf
  buffer : d.scsi.pbBuf.bind d.heap =
    some (done ++ List.replicate (c.cbBuf - done.length) 0)

theorem Filling.present (filling : Filling c done d) : ∃ block, d.scsi.pbBuf = some block ∧
      d.heap block = some (done ++ replicate (c.cbBuf - done.length) 0) :=
  bind_eq_some_iff.mp filling.buffer

/-- The next byte of a buffer filled with zeros. -/
theorem store_next {n : Nat} (uVal : UInt8) (inside : done.length < n) :
    (range (done ++ replicate (n - done.length) (0 : UInt8)).length).map (fun i =>
      if done.length ≤ i then
        ([uVal][i - done.length]?).getD ((done ++ replicate (n - done.length) 0).getD i 0)
      else (done ++ replicate (n - done.length) 0).getD i 0) =
    (done ++ [uVal]) ++ replicate (n - (done ++ [uVal]).length) 0 := by
  have next : n - done.length = n - (done.length + 1) + 1 := by omega
  rw [append_assoc, @length_append _ done [uVal]]
  apply ext_getElem
  · simp only [length_map, length_range, length_append, length_replicate, length_singleton]
    omega
  · intro i below _
    rw [getElem_map, getElem_range]
    by_cases early : i < done.length
    · rw [if_neg (Nat.not_le.mpr early), getElem_append_left early, getD_eq_getElem?_getD,
        getElem?_append_left early, getElem?_eq_getElem early]
      rfl
    · have late := Nat.le_of_not_lt early
      rw [if_pos late, getElem_append_right late]
      obtain ⟨k, rfl⟩ := Nat.exists_eq_add_of_le late
      simp only [Nat.add_sub_cancel_left]
      cases k with
      | zero => rfl
      | succ k =>
        rw [getElem_append_right (Nat.le_add_left 1 k), getElem_replicate,
          getD_eq_getElem?_getD, getElem?_append_right (Nat.le_add_right _ _),
          Nat.add_sub_cancel_left, getElem?_replicate]
        split <;> rfl

/-- A byte through the register. -/
theorem Filling.register (filling : Filling c done d) (dir : c.toDevice = true)
    (inside : done.length < c.cbBuf) (uVal : UInt8) :
    Filling c (done ++ [uVal]) (d.vboxscsiWriteRegister 1 uVal true) ∧
      (d.vboxscsiWriteRegister 1 uVal true).cMoreData =
        if done.length + 1 = c.cbBuf then d.cMoreData + 1 else d.cMoreData := by
  obtain ⟨block, pbBuf, heap⟩ := filling.present
  have ready := filling.ready
  have narrow : u32 (done.length + 1) = done.length + 1 :=
    u32_of_lt (Nat.lt_of_le_of_lt inside (Nat.lt_trans c.bufSize.2 (by decide)))
  have expects : ¬ (d.scsi.enmState ≠ .commandReady ∨
      d.scsi.uTxDir ≠ VBOXSCSI_TXDIR_TO_DEVICE) := by
    rw [not_or, not_not, not_not]
    refine ⟨ready.state, ?_⟩
    rw [ready.bears.uTxDir, Command.uTxDir, if_pos dir]
  have stored := store_next uVal inside
  have zero : (1 : UInt8) ≠ 0 := by decide
  have sent : d.vboxscsiWriteRegister 1 uVal true = d.writeData uVal := by
    rw [Device.vboxscsiWriteRegister, if_neg zero, if_pos rfl]
  rw [sent, Device.writeData, if_neg expects]
  simp only [Device.record, Device.store, pbBuf, ready.iBuf, narrow, filling.cbBuf, heap,
    map_some, stored]
  have filled : ∀ d' : Device,
      d'.scsi = { d.scsi with
        pbBuf := some block, cbBuf := c.cbBuf, iBuf := done.length + 1, fBusy := d'.scsi.fBusy } →
      d'.heap = update d.heap block (some ((done ++ [uVal]) ++
        replicate (c.cbBuf - (done ++ [uVal]).length) 0)) → d'.inFlight = d.inFlight →
      Filling c (done ++ [uVal]) d' := by
    intro d' scsi heap' inFlight
    refine ⟨⟨⟨?_, ?_, ?_⟩, ?_, ?_, ?_, inFlight.trans ready.inFlight⟩, ?_, ?_⟩
    · rw [scsi]
      exact ready.bears.uTargetDevice
    · rw [scsi]
      exact ready.bears.uTxDir
    · rw [scsi]
      exact ready.bears.cbCDB
    · rw [scsi]
      exact ready.state
    · rw [scsi]
      exact ready.abCDB
    · rw [scsi, length_append, length_singleton]
    · rw [scsi]
    · rw [scsi, heap']
      simp only [bind_some, update_self]
  split
  · exact ⟨filled _ rfl rfl rfl, rfl⟩
  · exact ⟨filled _ rfl rfl rfl, rfl⟩

/-- Accesses to the register alone. -/
theorem writes_registers (filling : Filling c done d) (dir : c.toDevice = true)
    (fits : done.length + rest.length = c.cbBuf) (registers : ∀ m ∈ moves, m = Move.register)
    (sum : (moves.map Move.count).sum = rest.length) :
    SignalsOnce d moves rest ∧ Filling c (done ++ rest) (d.writeMoves moves rest) := by
  induction moves generalizing d done rest with
  | nil =>
    have none : rest = [] := eq_nil_of_length_eq_zero sum.symm
    subst none
    exact ⟨trivial, (append_nil done).symm ▸ filling⟩
  | cons m moves ih =>
    obtain rfl := registers m mem_cons_self
    rw [map_cons, sum_cons, Move.count] at sum
    cases rest with
    | nil =>
      rw [length_nil] at sum
      omega
    | cons uVal rest =>
      rw [length_cons] at sum fits
      obtain ⟨next, signal⟩ := filling.register dir (by omega) uVal
      have fits' : (done ++ [uVal]).length + rest.length = c.cbBuf := by
        rw [length_append, length_singleton]
        omega
      obtain ⟨signals, final⟩ := ih next fits'
        (fun m member => registers m (mem_cons_of_mem _ member)) (by omega)
      rw [append_assoc, singleton_append] at final
      refine ⟨⟨?_, signals⟩, final⟩
      show (d.vboxscsiWriteRegister 1 uVal true).cMoreData ≠ _ ↔ _
      rw [signal, length_cons]
      show _ ↔ _ ∧ _ = 1
      split
      case isTrue last =>
        exact ⟨fun _ => ⟨cons_ne_nil _ _, by omega⟩, fun _ => Nat.succ_ne_self _⟩
      case isFalse early =>
        exact ⟨fun same => absurd rfl same, fun ⟨_, one⟩ => absurd (by omega) early⟩

/-- The request of a filled buffer. -/
theorem Filling.presents (filling : Filling c data d) (dir : c.toDevice = true)
    (whole : data.length = c.cbBuf) : Presents c data (d.vboxscsiSetupRequest true true) := by
  have ready := filling.ready
  have txDir : d.scsi.uTxDir ≠ VBOXSCSI_TXDIR_FROM_DEVICE := by
    rw [ready.bears.uTxDir, Command.uTxDir, if_pos dir]
    decide
  have buffer := filling.buffer
  rw [whole, Nat.sub_self, replicate_zero, append_nil] at buffer
  refine ⟨⟨d.scsi.cbCDB, d.scsi.uTargetDevice, d.scsi.cbBuf, d.scsi.pbBuf⟩, ?_,
    ready.bears.uTargetDevice, ?_, filling.cbBuf, ?_⟩
  all_goals
    rw [Device.vboxscsiSetupRequest]
    simp only [if_neg txDir, Device.sendRequest, if_true]
  · rw [ready.inFlight, nil_append]
  · rw [ready.bears.cbCDB]
    exact ready.abCDB
  · exact buffer

/-- The size of the buffer has become smaller than that of the command. -/
structure Short (c : Command) (d : Device) : Prop where
  state : d.scsi.enmState = .commandReady
  uTxDir : d.scsi.uTxDir = VBOXSCSI_TXDIR_TO_DEVICE
  present : d.scsi.pbBuf ≠ none
  below : d.scsi.cbBuf < c.cbBuf
  inFlight : d.inFlight = []

theorem writeString_fields (present : d.scsi.pbBuf ≠ none) (cTransfer : UInt64) (cb : UInt32)
    (abSrc : List UInt8) : (d.vboxscsiWriteString cTransfer cb abSrc).scsi =
        { d.scsi with
          iBuf := u32 (d.scsi.iBuf + d.cbTransfer cTransfer cb)
          cbBuf := d.scsi.cbBuf - d.cbTransfer cTransfer cb
          fBusy := true } ∧
      (d.vboxscsiWriteString cTransfer cb abSrc).inFlight = d.inFlight ∧
      (d.vboxscsiWriteString cTransfer cb abSrc).cMoreData = d.cMoreData + 1 := by
  have taken : u32Sub d.scsi.cbBuf (d.cbTransfer cTransfer cb) =
      d.scsi.cbBuf - d.cbTransfer cTransfer cb := if_pos (Nat.min_le_right _ _)
  rw [Device.vboxscsiWriteString, if_neg present]
  cases pbBuf : d.scsi.pbBuf with
  | none => exact absurd pbBuf present
  | some block =>
    simp only [Device.record, Device.store, Device.advance, Device.moreData, taken, pbBuf, and_self]

theorem writeRegister_fields (state : d.scsi.enmState = .commandReady)
    (uTxDir : d.scsi.uTxDir = VBOXSCSI_TXDIR_TO_DEVICE) (uVal : UInt8) :
    (∃ iBuf fBusy, (d.vboxscsiWriteRegister 1 uVal true).scsi = { d.scsi with iBuf, fBusy }) ∧
      (d.vboxscsiWriteRegister 1 uVal true).inFlight = d.inFlight := by
  have expects : ¬ (d.scsi.enmState ≠ .commandReady ∨
      d.scsi.uTxDir ≠ VBOXSCSI_TXDIR_TO_DEVICE) := by
    rw [not_or, not_not, not_not]
    exact ⟨state, uTxDir⟩
  have zero : (1 : UInt8) ≠ 0 := by decide
  have sent : d.vboxscsiWriteRegister 1 uVal true = d.writeData uVal := by
    rw [Device.vboxscsiWriteRegister, if_neg zero, if_pos rfl]
  rw [sent, Device.writeData, if_neg expects]
  cases d.scsi.pbBuf <;> by_cases full : u32 (d.scsi.iBuf + 1) = d.scsi.cbBuf <;>
  · simp only [Device.record, Device.store, Device.moreData, full, if_true, if_false, and_true]
    exact ⟨_, _, rfl⟩

theorem Short.writeMove (short : Short c d) (m : Move) (data : List UInt8) :
    Short c (d.writeMove m data) := by
  cases m with
  | register =>
    obtain ⟨⟨iBuf, fBusy, scsi⟩, inFlight⟩ :=
      writeRegister_fields short.state short.uTxDir (data.headD 0)
    refine ⟨?_, ?_, ?_, ?_, inFlight.trans short.inFlight⟩ <;> rw [Device.writeMove, scsi]
    · exact short.state
    · exact short.uTxDir
    · exact short.present
    · exact short.below
  | string cTransfer cb =>
    obtain ⟨scsi, inFlight, -⟩ := writeString_fields short.present cTransfer cb
      (data.take (Move.string cTransfer cb).count)
    refine ⟨?_, ?_, ?_, ?_, inFlight.trans short.inFlight⟩ <;> rw [Device.writeMove, scsi]
    · exact short.state
    · exact short.uTxDir
    · exact short.present
    · exact Nat.lt_of_le_of_lt (Nat.sub_le _ _) short.below

theorem Short.writeMoves (short : Short c d) (moves : List Move) (data : List UInt8) :
    Short c (d.writeMoves moves data) := by
  induction moves generalizing d data with
  | nil => exact short
  | cons m moves ih => exact ih (short.writeMove m data) _

/-- The request presents the smaller size. -/
theorem Short.not_presents (short : Short c d) :
    ¬ Presents c data (d.vboxscsiSetupRequest true true) := by
  rintro ⟨request, inFlight, _, _, cbSeg, _⟩
  have txDir : d.scsi.uTxDir ≠ VBOXSCSI_TXDIR_FROM_DEVICE := by
    rw [short.uTxDir]
    decide
  rw [Device.vboxscsiSetupRequest] at inFlight
  simp only [if_neg txDir, Device.sendRequest, if_true, short.inFlight, nil_append] at inFlight
  rw [← (cons.inj inFlight).1] at cbSeg
  exact Nat.ne_of_lt short.below cbSeg

/-- A string access signals; if that is right, it takes its bytes off the size. -/
theorem short_of_string (filling : Filling c done d) (dir : c.toDevice = true)
    (fits : done.length + rest.length = c.cbBuf) (sum : (moves.map Move.count).sum = rest.length)
    (signals : SignalsOnce d moves rest) {m : Move} (member : m ∈ moves) (string : m ≠ .register) :
    Short c (d.writeMoves moves rest) := by
  induction moves generalizing d done rest with
  | nil => cases member
  | cons first moves ih =>
    rw [map_cons, sum_cons] at sum
    cases first with
    | register =>
      have member : m ∈ moves := (mem_cons.mp member).resolve_left string
      rw [Move.count] at sum
      cases rest with
      | nil =>
        rw [length_nil] at sum
        omega
      | cons uVal rest =>
        rw [length_cons] at sum fits
        obtain ⟨next, _⟩ := filling.register dir (by omega) uVal
        have fits' : (done ++ [uVal]).length + rest.length = c.cbBuf := by
          rw [length_append, length_singleton]
          omega
        have sum' : (moves.map Move.count).sum = rest.length := by omega
        exact ih next fits' sum' signals.2 member
    | string cTransfer cb =>
      obtain ⟨block, pbBuf, _⟩ := filling.present
      have present : d.scsi.pbBuf ≠ none := by
        rw [pbBuf]
        exact some_ne_none block
      obtain ⟨scsi, inFlight, signal⟩ := writeString_fields present cTransfer cb
        (rest.take (Move.string cTransfer cb).count)
      obtain ⟨nonempty, count⟩ := signals.1.mp (by
        rw [Device.writeMove, signal]
        exact Nat.succ_ne_self _)
      have positive := length_pos_iff.mpr nonempty
      have taken : 0 < d.cbTransfer cTransfer cb := by
        have narrow : u32 (cTransfer.toNat * cb.toNat) = rest.length := by
          rw [count]
          refine u32_of_lt ?_
          rw [← Move.count, ← count]
          exact Nat.lt_of_le_of_lt (by omega) (Nat.lt_trans c.bufSize.2 (by decide))
        rw [Device.cbTransfer, narrow, filling.cbBuf]
        exact Nat.lt_min.mpr ⟨positive, c.bufSize.1⟩
      have short : Short c (d.writeMove (.string cTransfer cb) rest) := by
        refine ⟨?_, ?_, ?_, ?_, inFlight.trans filling.ready.inFlight⟩ <;>
          rw [Device.writeMove, scsi]
        · exact filling.ready.state
        · rw [filling.ready.bears.uTxDir, Command.uTxDir, if_pos dir]
        · exact present
        · rw [filling.cbBuf]
          exact Nat.sub_lt c.bufSize.1 taken
      exact short.writeMoves moves _

/-- A write is right exactly if it uses the register alone. -/
theorem writes_iff (idle : Idle d) (dir : c.toDevice = true) (length : data.length = c.cbBuf)
    (sum : (moves.map Move.count).sum = c.cbBuf) :
    Writes d c data moves ↔ ∀ m ∈ moves, m = .register := by
  have loaded : Loaded c (d.sendCommand c) := loaded_sendCommand idle
  obtain ⟨silent, buffer⟩ := loaded.toDevice dir
  have filling : Filling c [] (d.sendCommand c) := ⟨loaded.ready, loaded.cbBuf, buffer⟩
  have fits : ([] : List UInt8).length + data.length = c.cbBuf := (Nat.zero_add _).trans length
  constructor
  · intro writes m member
    apply Decidable.byContradiction
    intro string
    exact (short_of_string filling dir fits (sum.trans length.symm) writes.signals member
      string).not_presents writes.presents
  · intro registers
    obtain ⟨signals, final⟩ := writes_registers filling dir fits registers (sum.trans length.symm)
    exact ⟨silent, signals, final.presents dir length⟩

end Writing

/-! ### Reading -/

section Reading

variable {d : Device} {c : Command} {data : List UInt8} {moved : Nat}

/-- Some of the device's bytes are with the guest. -/
structure Draining (c : Command) (data : List UInt8) (moved : Nat) (d : Device) : Prop where
  ready : Ready c moved d
  cbBuf : d.scsi.cbBuf = c.cbBuf - moved
  buffer : d.scsi.pbBuf.bind d.heap = some data
  fBusy : d.scsi.fBusy = false
  cMoreData : d.cMoreData = 0

/-- Where a read is after some bytes: it drains the buffer, or all is done. -/
def Progress (c : Command) (data : List UInt8) (moved : Nat) (d : Device) : Prop :=
  if moved < c.cbBuf then Draining c data moved d else Idle d

theorem Draining.present (draining : Draining c data moved d) :
    ∃ block, d.scsi.pbBuf = some block ∧ d.heap block = some data :=
  bind_eq_some_iff.mp draining.buffer

theorem store_whole {old bytes : List UInt8} (length : bytes.length = old.length) :
    (range old.length).map (fun i =>
      if 0 ≤ i then (bytes[i - 0]?).getD (old.getD i 0) else old.getD i 0) = bytes := by
  apply ext_getElem
  · rw [length_map, length_range, length]
  · intro i below inside
    rw [getElem_map, getElem_range, if_pos (Nat.zero_le i), Nat.sub_zero,
      getElem?_eq_getElem inside]
    rfl

/-- The device has served the request. -/
theorem draining_served (idle : Idle d) (dir : c.toDevice = false)
    (length : data.length = c.cbBuf) (rcCompletion : Int) :
    Draining c data 0 (d.served c data rcCompletion) := by
  have loaded : Loaded c (d.sendCommand c) := loaded_sendCommand idle
  obtain ⟨cMoreData, pbBuf⟩ := loaded.fromDevice dir
  have ready := loaded.ready
  have fromDevice : VBOXSCSI_TXDIR_FROM_DEVICE ≠ VBOXSCSI_TXDIR_TO_DEVICE := by decide
  have txDir : (d.sendCommand c).scsi.uTxDir = VBOXSCSI_TXDIR_FROM_DEVICE := by
    rw [ready.bears.uTxDir, Command.uTxDir, dir]
    rfl
  have stored := @store_whole (replicate c.cbBuf 0) data
    (by rw [length, length_replicate])
  have taken : data.take c.cbBuf = data := take_of_length_le (Nat.le_of_eq length)
  rw [Device.served]
  generalize d.sendCommand c = d at *
  have set : d.vboxscsiSetupRequest true true =
      { d with
        scsi := { d.scsi with rcCompletion := 0, pbBuf := some d.cAllocs }
        heap := update d.heap d.cAllocs (some (replicate c.cbBuf 0))
        cAllocs := d.cAllocs + 1
        cMoreData := 0
        inFlight := [⟨d.scsi.cbCDB, d.scsi.uTargetDevice, c.cbBuf, some d.cAllocs⟩]
        log := .buffer (some c.cbBuf) 0 c.cbBuf :: d.log } := by
    simp [Device.vboxscsiSetupRequest, txDir, pbBuf, cMoreData, Device.memFree, Device.memAllocZ,
      Device.sendRequest, loaded.cbBuf, ready.inFlight, Device.sizeOf]
  rw [set]
  have finished : ∀ d' : Device, d'.scsi = { d.scsi with
      uTxDir := VBOXSCSI_TXDIR_FROM_DEVICE, pbBuf := some d.cAllocs, rcCompletion := rcCompletion,
      fBusy := false } →
      d'.heap d.cAllocs = some data → d'.inFlight = [] → d'.cMoreData = 0 →
      Draining c data 0 d' := by
    intro d' scsi heap inFlight cMoreData
    refine ⟨⟨⟨?_, ?_, ?_⟩, ?_, ?_, ?_, inFlight⟩, ?_, ?_, ?_, cMoreData⟩ <;> rw [scsi]
    · exact ready.bears.uTargetDevice
    · exact txDir.symm.trans ready.bears.uTxDir
    · exact ready.bears.cbCDB
    · exact ready.state
    · exact ready.abCDB
    · exact ready.iBuf
    · exact loaded.cbBuf
    · exact heap
  rw [Device.vboxscsiRequestFinished]
  simp only [getElem?_cons_zero, eraseIdx_cons_zero, Device.store, update_self,
    map_some, taken, stored, txDir, if_neg fromDevice]
  exact finished _ rfl (update_self ..) rfl rfl

section

variable (draining : Draining c data moved d) (access : Access)

include draining access

/-- The end of the transfer. -/
theorem Draining.endTransfer (n : Nat) : Idle ((d.record access).advance n).endTransfer := by
  obtain ⟨block, pbBuf, _⟩ := draining.present
  unfold Device.endTransfer Device.memFree Device.advance Device.record
  simp only [pbBuf]
  exact ⟨rfl, rfl, rfl, rfl, rfl, draining.fBusy, draining.ready.inFlight, draining.cMoreData⟩

/-- The position moves on. -/
theorem Draining.advance {n : Nat} (fits : moved + n ≤ c.cbBuf) :
    Draining c data (moved + n) ((d.record access).advance n) ∧
      (((d.record access).advance n).scsi.cbBuf = 0 ↔ moved + n = c.cbBuf) := by
  have left : n ≤ d.scsi.cbBuf := by
    rw [draining.cbBuf]
    omega
  have narrow : u32 (moved + n) = moved + n :=
    u32_of_lt (Nat.lt_of_le_of_lt fits (Nat.lt_trans c.bufSize.2 (by decide)))
  have cbBuf : ((d.record access).advance n).scsi.cbBuf = c.cbBuf - (moved + n) := by
    show u32Sub d.scsi.cbBuf n = _
    rw [u32Sub, if_pos left, draining.cbBuf, Nat.sub_sub]
  have ready := draining.ready
  refine ⟨⟨⟨⟨ready.bears.uTargetDevice, ready.bears.uTxDir, ready.bears.cbCDB⟩, ready.state,
    ready.abCDB, ?_, ready.inFlight⟩, cbBuf, draining.buffer, draining.fBusy,
    draining.cMoreData⟩, ?_⟩
  · show u32 (d.scsi.iBuf + n) = moved + n
    rw [ready.iBuf, narrow]
  · rw [cbBuf]
    omega

/-- Bytes that are moved, and the end behind the last one. -/
theorem progress_advance {n : Nat} (fits : moved + n ≤ c.cbBuf) {d' : Device}
    (ends : ((d.record access).advance n).scsi.cbBuf = 0 → Idle d')
    (goes : ((d.record access).advance n).scsi.cbBuf ≠ 0 → d' = (d.record access).advance n) :
    Progress c data (moved + n) d' := by
  obtain ⟨next, empty⟩ := draining.advance access fits
  unfold Progress
  split
  case isTrue more =>
    rw [goes fun zero => Nat.ne_of_lt more (empty.mp zero)]
    exact next
  case isFalse all => exact ends (empty.mpr (Nat.le_antisymm fits (Nat.le_of_not_lt all)))

end

theorem progress_readMove (length : data.length = c.cbBuf) (progress : Progress c data moved d)
    (m : Move) (fits : moved + m.count ≤ c.cbBuf) :
    (d.readMove m).1 = (data.drop moved).take m.count ∧
      Progress c data (moved + m.count) (d.readMove m).2 := by
  by_cases more : moved < c.cbBuf
  · rw [Progress, if_pos more] at progress
    obtain ⟨block, pbBuf, heap⟩ := progress.present
    have ready := progress.ready
    cases m with
    | register =>
      have left : 0 < d.scsi.cbBuf := by
        rw [progress.cbBuf]
        exact Nat.sub_pos_of_lt more
      have inside : moved < data.length := length ▸ more
      have zero : (1 : UInt8) ≠ 0 := by decide
      constructor
      · show [UInt8.ofNat (d.readValue 1).toNat] = (data.drop moved).take 1
        have value : d.readValue 1 = ((data.getD moved 0).toNat : Int) := by
          rw [Device.readValue, if_neg zero, if_pos rfl, if_pos ⟨ready.state, left⟩,
            progress.buffer, ready.iBuf]
          rfl
        rw [value, Int.toNat_natCast, UInt8.ofNat_toNat, drop_eq_getElem_cons inside,
          take_succ_cons, take_zero, getD_eq_getElem?_getD,
          getElem?_eq_getElem inside]
        rfl
      · have sent : (d.readMove .register).2 = d.readData := by
          show d.vboxscsiReadRegister 1 = d.readData
          rw [Device.vboxscsiReadRegister, if_pos rfl]
        rw [sent, Device.readData, if_pos ⟨ready.state, left⟩]
        have fits : moved + 1 ≤ c.cbBuf := fits
        refine progress_advance progress (.buffer (d.sizeOf d.scsi.pbBuf) d.scsi.iBuf 1) fits
          (fun zero => ?_) (fun some => if_neg some)
        simp only [zero, if_true]
        have done := progress.endTransfer (.buffer (d.sizeOf d.scsi.pbBuf) d.scsi.iBuf 1) 1
        exact ⟨done.state, done.abCDB, done.iCDB, done.iBuf, done.pbBuf, done.fBusy,
          done.inFlight, done.cMoreData⟩
    | string cTransfer cb =>
      rw [Move.count] at fits
      have some : d.scsi.pbBuf ≠ none := by
        rw [pbBuf]
        exact some_ne_none block
      have n : d.cbTransfer cTransfer cb = cTransfer.toNat * cb.toNat := by
        rw [Device.cbTransfer, progress.cbBuf, u32_of_lt]
        · exact Nat.min_eq_left (by omega)
        · exact Nat.lt_of_le_of_lt (Nat.le_trans (Nat.le_add_left _ _) fits)
            (Nat.lt_trans c.bufSize.2 (by decide))
      constructor
      · show d.stringBytes cTransfer cb = _
        rw [Device.stringBytes, progress.buffer, ready.iBuf, n]
        rfl
      · show Progress c data _ (d.vboxscsiReadString cTransfer cb)
        rw [Device.vboxscsiReadString, if_neg some, n]
        refine progress_advance progress
          (.buffer (d.sizeOf d.scsi.pbBuf) d.scsi.iBuf (cTransfer.toNat * cb.toNat)) fits
          (fun zero => ?_) (fun some => if_neg some)
        rw [if_pos zero]
        exact progress.endTransfer _ _
  · -- Nothing is left, and an access that asks for nothing finds no buffer.
    rw [Progress, if_neg more] at progress
    have none : m.count = 0 := by omega
    cases m with
    | register => cases none
    | string cTransfer cb =>
      rw [none, Nat.add_zero, Progress, if_neg more]
      constructor
      · show d.stringBytes cTransfer cb = _
        rw [Device.stringBytes, progress.pbBuf, bind_none, getD_none, drop_nil, take_nil, take_zero]
      · show Idle (d.vboxscsiReadString cTransfer cb)
        rw [Device.vboxscsiReadString, if_pos progress.pbBuf]
        exact progress

theorem progress_readMoves (length : data.length = c.cbBuf) (progress : Progress c data moved d)
    (moves : List Move) (fits : moved + (moves.map Move.count).sum ≤ c.cbBuf) :
    (d.readMoves moves).1 = (data.drop moved).take (moves.map Move.count).sum ∧
      Progress c data (moved + (moves.map Move.count).sum) (d.readMoves moves).2 := by
  induction moves generalizing d moved with
  | nil => exact ⟨rfl, progress⟩
  | cons m moves ih =>
    rw [map_cons, sum_cons, ← Nat.add_assoc] at fits
    rw [map_cons, sum_cons, ← Nat.add_assoc]
    obtain ⟨bytes, next⟩ :=
      progress_readMove length progress m (Nat.le_trans (Nat.le_add_right _ _) fits)
    obtain ⟨bytes', final⟩ := ih next fits
    refine ⟨?_, final⟩
    rw [Device.readMoves, bytes, bytes', take_add, drop_drop]

theorem reads_right (idle : Idle d) (dir : c.toDevice = false) (length : data.length = c.cbBuf)
    (rcCompletion : Int) {moves : List Move} (sum : (moves.map Move.count).sum = c.cbBuf) :
    Reads d c data rcCompletion moves := by
  have loaded : Loaded c (d.sendCommand c) := loaded_sendCommand idle
  have start : Progress c data 0 (d.served c data rcCompletion) := by
    rw [Progress, if_pos c.bufSize.1]
    exact draining_served idle dir length rcCompletion
  have after := fun first (fits : (first.map Move.count).sum ≤ c.cbBuf) =>
    progress_readMoves length start first ((Nat.zero_add _).symm ▸ fits)
  obtain ⟨bytes, final⟩ := after moves (Nat.le_of_eq sum)
  rw [sum, Progress, if_neg (Nat.not_lt.mpr (Nat.le_add_left _ _))] at final
  refine ⟨(loaded.fromDevice dir).1, ?_, fun first rest split => ?_, final⟩
  · rw [bytes, sum, drop_zero, take_of_length_le (Nat.le_of_eq length)]
  · have fits : (first.map Move.count).sum ≤ c.cbBuf := by
      rw [← sum, split, map_append, sum_append]
      exact Nat.le_add_right _ _
    obtain ⟨_, progress⟩ := after first fits
    rw [Nat.zero_add, Progress] at progress
    split at progress
    case isTrue more =>
      constructor
      · intro state
        cases progress.ready.state.symm.trans state
      · exact fun all => absurd all (Nat.ne_of_lt more)
    case isFalse all =>
      exact ⟨fun _ => Nat.le_antisymm fits (Nat.le_of_not_lt all), fun _ => progress.state⟩

end Reading

/-! ### Transfers -/

theorem idle_initialized (scsi : VBoxScsi) : Idle (Device.vboxscsiInitialize scsi) :=
  ⟨rfl, rfl, rfl, rfl, rfl, rfl, rfl, rfl⟩

/-- A transfer delivers its data exactly if it is a read, or a write through the register alone. -/
theorem scsi_delivers_iff {d : Device} {c : Command} {data : List UInt8} {moves : List Move}
    (idle : Idle d) (rcCompletion : Int) (length : data.length = c.cbBuf)
    (sum : (moves.map Move.count).sum = c.cbBuf) :
    Delivers d c data rcCompletion moves ↔
      c.toDevice = false ∨ ∀ m ∈ moves, m = Move.register := by
  unfold Delivers
  cases dir : c.toDevice with
  | true =>
    rw [if_pos rfl, writes_iff idle dir length sum]
    exact ⟨.inr, fun either => either.resolve_left Bool.noConfusion⟩
  | false =>
    rw [if_neg Bool.false_ne_true]
    exact ⟨fun _ => .inl rfl, fun _ => reads_right idle dir length rcCompletion sum⟩

/-- Four bytes, to the device or from it. -/
def fourBytes (toDevice : Bool) : Command where
  uTargetDevice := 0
  toDevice := toDevice
  cdb := [0x2a]
  cbBuf := 4
  cdbSize := by decide
  bufSize := by decide

/-- A byte, two bytes by string and a byte are read. -/
theorem scsi_delivers_iff_mixedRead :
    Delivers (Device.vboxscsiInitialize blank) (fourBytes false) [1, 2, 3, 4] 0
      [.register, .string 2 1, .register] :=
  (scsi_delivers_iff (idle_initialized blank) 0 rfl (by decide)).mpr (.inl rfl)

/-- Four bytes are written by one string: the request is set up with a buffer of no bytes. -/
theorem exists_write_lost :
    ¬ ∀ (d : Device) (c : Command) (data : List UInt8) (rcCompletion : Int) (moves : List Move),
      Idle d → data.length = c.cbBuf → (moves.map Move.count).sum = c.cbBuf →
        Delivers d c data rcCompletion moves := by
  intro all
  have delivers := all (Device.vboxscsiInitialize blank) (fourBytes true) [1, 2, 3, 4] 0
    [.string 4 1] (idle_initialized blank) rfl (by decide)
  obtain ⟨request, inFlight, _, _, cbSeg, _⟩ := (show Writes _ _ _ _ from delivers).presents
  have none : ((((Device.vboxscsiInitialize blank).sendCommand (fourBytes true)).writeMoves
      [.string 4 1] [1, 2, 3, 4]).vboxscsiSetupRequest true true).inFlight.map Request.cbSeg =
        [0] := by decide +kernel
  rw [inFlight] at none
  have zero : request.cbSeg = 0 := (cons.inj none).1
  rw [cbSeg] at zero
  cases zero

end VBox.Devices.Scsi
