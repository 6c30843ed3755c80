import VBox.Storage.Basic
import Mathlib.Logic.Function.Basic

/-!
A virtio queue: the rings in guest memory, the device side of the queue, and a guest that drives
the other side.

The three areas of a ring are kept apart, as `vqueueInit` lays them out
(`vqueueInit_areas`). The interrupt at the end of `vqueueSync` and the notification flags are left
out.
-/

namespace VBox.Devices.Virtio

open VBox.Storage (u32Sub)

def VRINGDESC_F_NEXT : Nat := 0
def VRINGDESC_F_WRITE : Nat := 1
def VRING_MAX_SIZE : Nat := 1024

/-- `VRINGDESC`, the flags by the positions of their bits. -/
structure VRingDesc where
  u64Addr : UInt64
  uLen : UInt32
  u16Flags : UInt16
  u16Next : UInt16
  deriving DecidableEq

/-- `VRINGUSEDELEM`. -/
structure VRingUsedElem where
  uId : UInt32
  uLen : UInt32
  deriving DecidableEq

/-- `VRINGAVAIL`. -/
structure VRingAvail where
  uNextFreeIndex : Nat
  auRing : Nat → UInt16

/-- `VRINGUSED`. -/
structure VRingUsed where
  uIndex : Nat
  aRing : Nat → VRingUsedElem

/-- `VRING`. -/
structure VRing where
  uSize : Nat
  addrDescriptors : Nat
  addrAvail : Nat
  addrUsed : Nat

/-- `VQUEUE`. -/
structure VQueue where
  vring : VRing
  uNextAvailIndex : Nat
  uNextUsedIndex : Nat

/-- `VQUEUESEG`; `pv` is the host buffer, if the device has set one. -/
structure VQueueSeg where
  addr : UInt64
  pv : Option Nat
  cb : UInt32
  deriving DecidableEq

/-- `VQUEUEELEM`. -/
structure VQueueElem where
  uIndex : UInt32
  aSegsIn : List VQueueSeg
  aSegsOut : List VQueueSeg
  deriving DecidableEq

/-! ### Layout -/

/-- `vqueueInit`. -/
def vqueueInit (uSize uPageNumber : Nat) : VQueue :=
  let addrDescriptors := uPageNumber <<< 12
  let addrAvail := addrDescriptors + 16 * uSize
  { vring :=
      { uSize
        addrDescriptors
        addrAvail
        addrUsed := (addrAvail + (4 + 2 * uSize) + 4095) / 4096 * 4096 }
    uNextAvailIndex := 0
    uNextUsedIndex := 0 }

/-- The descriptors end before the available ring starts, and that one before the used ring. -/
theorem vqueueInit_areas (uSize uPageNumber : Nat) :
    let vring := (vqueueInit uSize uPageNumber).vring
    vring.addrDescriptors + 16 * uSize ≤ vring.addrAvail ∧
      vring.addrAvail + (4 + 2 * uSize) ≤ vring.addrUsed := by
  simp only [vqueueInit]
  omega

/-! ### The device -/

/-- The queue with the guest memory it lies in, and the histories of both sides. -/
structure Machine where
  aDescs : Nat → VRingDesc
  avail : VRingAvail
  used : VRingUsed
  queue : VQueue
  /-- Guest data the device has written: addresses and lengths. -/
  written : List (Nat × Nat)
  /-- Heads in the available ring that its index does not cover yet. -/
  staged : List UInt16
  /-- Heads the index of the available ring covers. -/
  published : List UInt16
  /-- Heads the device has removed. -/
  removed : List UInt16
  /-- Elements the device has put. -/
  puts : List VRingUsedElem
  /-- Elements the guest has found in the used ring. -/
  found : List VRingUsedElem
  /-- The index of the used ring up to which the guest has looked. -/
  uLastUsedIndex : Nat

namespace Machine

/-- A `uint16_t` index one further. -/
def next (uIndex : Nat) : Nat := (uIndex + 1) % 2 ^ 16

/-- `vringReadDesc`. -/
def vringReadDesc (m : Machine) (uIndex : Nat) : VRingDesc :=
  m.aDescs (uIndex % m.queue.vring.uSize)

/-- `vringReadAvail`. -/
def vringReadAvail (m : Machine) (uIndex : Nat) : UInt16 :=
  m.avail.auRing (uIndex % m.queue.vring.uSize)

/-- `vqueueIsEmpty`. -/
def vqueueIsEmpty (m : Machine) : Bool := m.avail.uNextFreeIndex == m.queue.uNextAvailIndex

/-- The loop of `vqueueGet` over the descriptors of a chain. An element has room for
`VRING_MAX_SIZE` segments in each direction; a chain that runs over it leaves nothing defined, and
does so before the count of steps is used up. -/
def readChain (m : Machine) : Nat → UInt16 → VQueueElem → Option VQueueElem
  | 0, _, _ => none
  | steps + 1, idx, elem =>
    let desc := m.vringReadDesc idx.toNat
    let seg : VQueueSeg := { addr := desc.u64Addr, pv := none, cb := desc.uLen }
    let segs := if desc.u16Flags.toNat.testBit VRINGDESC_F_WRITE then elem.aSegsIn
      else elem.aSegsOut
    if VRING_MAX_SIZE ≤ segs.length then none
    else
      let elem := if desc.u16Flags.toNat.testBit VRINGDESC_F_WRITE then
          { elem with aSegsIn := segs ++ [seg] }
        else { elem with aSegsOut := segs ++ [seg] }
      if desc.u16Flags.toNat.testBit VRINGDESC_F_NEXT then readChain m steps desc.u16Next elem
      else some elem

/-- Take the head at the device's position off the available ring. -/
def remove (m : Machine) : Machine :=
  { m with
    queue := { m.queue with uNextAvailIndex := next m.queue.uNextAvailIndex }
    removed := m.removed ++ [m.vringReadAvail m.queue.uNextAvailIndex] }

/-- `vqueueSkip`. -/
def vqueueSkip (m : Machine) : Bool × Machine :=
  if m.vqueueIsEmpty then (false, m) else (true, m.remove)

/-- `vqueueGet`: no element is the return value false. -/
def vqueueGet (m : Machine) (fRemove : Bool) : Option (Option VQueueElem × Machine) :=
  if m.vqueueIsEmpty then some (none, m)
  else
    let idx := m.vringReadAvail m.queue.uNextAvailIndex
    let m' := if fRemove then m.remove else m
    let elem : VQueueElem := { uIndex := idx.toNat.toUInt32, aSegsIn := [], aSegsOut := [] }
    (m'.readChain (2 * VRING_MAX_SIZE + 1) idx elem).map fun elem => (some elem, m')

/-- `vqueuePeek`. -/
def vqueuePeek (m : Machine) : Option (Option VQueueElem × Machine) := m.vqueueGet false

/-- The loop of `vqueuePut` that copies the data into the guest's segments. -/
def copySegments : List VQueueSeg → Nat → Nat → Nat → Nat → List (Nat × Nat)
  | [], _, _, _, _ => []
  | seg :: rest, uLen, uReserved, uOffset, cbReserved =>
    if uOffset < u32Sub uLen uReserved then
      let cbSegLen := min (u32Sub (u32Sub uLen cbReserved) uOffset) (u32Sub seg.cb.toNat cbReserved)
      match seg.pv with
      | some _ => (seg.addr.toNat + cbReserved, cbSegLen) ::
          copySegments rest uLen uReserved (uOffset + cbSegLen) 0
      | none => copySegments rest uLen uReserved (uOffset + cbSegLen) cbReserved
    else []

/-- `vringWriteUsedElem`. -/
def vringWriteUsedElem (m : Machine) (uIndex : Nat) (elem : VRingUsedElem) : Machine :=
  { m with
    used := { m.used with
      aRing := Function.update m.used.aRing (uIndex % m.queue.vring.uSize) elem } }

/-- `vqueuePut`. -/
def vqueuePut (m : Machine) (elem : VQueueElem) (uLen uReserved : UInt32) : Machine :=
  let usedElem : VRingUsedElem := { uId := elem.uIndex, uLen }
  let m' := m.vringWriteUsedElem m.queue.uNextUsedIndex usedElem
  { m' with
    queue := { m.queue with uNextUsedIndex := next m.queue.uNextUsedIndex }
    written := m.written ++
      copySegments elem.aSegsIn uLen.toNat uReserved.toNat 0 uReserved.toNat
    puts := m.puts ++ [usedElem] }

/-- `vqueueSync`. -/
def vqueueSync (m : Machine) : Machine :=
  { m with used := { m.used with uIndex := m.queue.uNextUsedIndex } }

/-! ### The guest -/

/-- A head written behind the published ones. -/
def stage (m : Machine) (head : UInt16) : Machine :=
  { m with
    avail := { m.avail with
      auRing := Function.update m.avail.auRing
        ((m.avail.uNextFreeIndex + m.staged.length) % m.queue.vring.uSize) head }
    staged := m.staged ++ [head] }

/-- The index of the available ring moved over the heads written. -/
def publish (m : Machine) : Machine :=
  { m with
    avail := { m.avail with
      uNextFreeIndex := (m.avail.uNextFreeIndex + m.staged.length) % 2 ^ 16 }
    published := m.published ++ m.staged
    staged := [] }

/-- What stands in the used ring between the guest's position and the ring's index. -/
def fresh (m : Machine) : List VRingUsedElem :=
  (List.range ((m.used.uIndex + 2 ^ 16 - m.uLastUsedIndex) % 2 ^ 16)).map fun k =>
    m.used.aRing ((m.uLastUsedIndex + k) % m.queue.vring.uSize)

/-- The guest takes what it finds in the used ring. -/
def find (m : Machine) : Machine :=
  { m with found := m.found ++ m.fresh, uLastUsedIndex := m.used.uIndex }

/-- A queue after its initialisation, with indices of zero in guest memory. -/
def initial (uSize uPageNumber : Nat) (aDescs : Nat → VRingDesc) (auRing : Nat → UInt16)
    (aRing : Nat → VRingUsedElem) : Machine :=
  { aDescs
    avail := { uNextFreeIndex := 0, auRing }
    used := { uIndex := 0, aRing }
    queue := vqueueInit uSize uPageNumber
    written := []
    staged := []
    published := []
    removed := []
    puts := []
    found := []
    uLastUsedIndex := 0 }

end Machine

/-- What the guest and the device do. -/
inductive Op where
  | writeDesc (i : Nat) (desc : VRingDesc)
  | stage (head : UInt16)
  | publish
  | find
  | peek
  | get
  | skip
  | put (elem : VQueueElem) (uLen uReserved : UInt32)
  | sync

/-- The guest never has more heads outstanding than the ring has places; the device does anything.
A `vqueueGet` that runs over its element has no result. -/
def step (m : Machine) : Op → Option Machine
  | .writeDesc i desc => some { m with aDescs := Function.update m.aDescs i desc }
  | .stage head =>
    if m.published.length + m.staged.length < m.found.length + m.queue.vring.uSize then
      some (m.stage head)
    else none
  | .publish => some m.publish
  | .find => some m.find
  | .peek => m.vqueuePeek.map Prod.snd
  | .get => (m.vqueueGet true).map Prod.snd
  | .skip => some m.vqueueSkip.2
  | .put elem uLen uReserved => some (m.vqueuePut elem uLen uReserved)
  | .sync => some m.vqueueSync

end VBox.Devices.Virtio
