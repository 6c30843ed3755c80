import VBox.Storage.Basic
import Mathlib.Logic.Function.Basic

/-!
IPRT handle tables.

An entry of the two-level table holds an object, or, with its two low bits set, the index of the
next free entry. The simple and the context variant differ in that the context is compared. All
calls run behind the table's lock, which `RTHandleTableAlloc` drops to allocate and to free memory:
what a thread does between two of these places is one step.
-/

namespace VBox.Runtime.HandleTable

open VBox.Storage (u32 u32Sub)

def RTHT_LEVEL2_ENTRIES : Nat := 2048
def RTHT_LEVEL1_DYN_ALLOC_THRESHOLD : Nat := 256
def PAGE_SIZE : Nat := 4096
def UINT32_MAX : Nat := 0xffffffff
def NIL_RTHT_INDEX : Nat := 0xffffffff

/-- `RTHT_IS_FREE` -/
def isFree (pvObj : Nat) : Bool := pvObj &&& 3 == 3

/-- `RTHT_SET_FREE_IDX` -/
def setFreeIdx (idx : Nat) : Nat := u32 idx <<< 2 ||| 3

/-- `RTHT_GET_FREE_IDX` -/
def getFreeIdx (iNext : Nat) : Nat := u32 (iNext >>> 2)

/-- `RTHTENTRYCTX`; the simple variant has no context. -/
structure Entry where
  pvObj : Nat
  pvCtx : Nat
  deriving DecidableEq, Repr

/-- The context of a free entry. -/
def freeCtx : Nat := 2 ^ 64 - 1 - 7

/-- `RTHANDLETABLEINT`. -/
structure Table where
  fContext : Bool
  uBase : Nat
  cCur : Nat
  papvLevel1 : Nat → Option (Nat → Entry)
  cMax : Nat
  cCurAllocated : Nat
  cLevel1 : Nat
  iFreeHead : Nat
  iFreeTail : Nat

/-- `RTHandleTableCreateEx`, if it accepts its arguments and has the memory. -/
def createEx (fContext : Bool) (uBase cMax : Nat) : Option Table :=
  if cMax = 0 ∨ UINT32_MAX - cMax < uBase then none
  else
    let cMax := if UINT32_MAX - RTHT_LEVEL2_ENTRIES ≤ cMax then
      UINT32_MAX - RTHT_LEVEL2_ENTRIES + 1 else cMax
    let cMax := u32 (cMax + RTHT_LEVEL2_ENTRIES - 1) / RTHT_LEVEL2_ENTRIES * RTHT_LEVEL2_ENTRIES
    let cLevel1 := cMax / RTHT_LEVEL2_ENTRIES
    some
      { fContext
        uBase
        cCur := 0
        papvLevel1 := fun _ => none
        cMax
        cCurAllocated := 0
        cLevel1 := if cLevel1 < RTHT_LEVEL1_DYN_ALLOC_THRESHOLD then cLevel1 else 0
        iFreeHead := NIL_RTHT_INDEX
        iFreeTail := NIL_RTHT_INDEX }

namespace Table

variable (table : Table)

/-- What is at an index of the two-level table. -/
def entry (i : Nat) : Entry :=
  match table.papvLevel1 (i / RTHT_LEVEL2_ENTRIES) with
  | some paTable => paTable (i % RTHT_LEVEL2_ENTRIES)
  | none => ⟨0, 0⟩

/-- Write an entry of the two-level table. -/
def setEntry (i : Nat) (entry : Entry) : Table :=
  { table with
    papvLevel1 := Function.update table.papvLevel1 (i / RTHT_LEVEL2_ENTRIES)
      ((table.papvLevel1 (i / RTHT_LEVEL2_ENTRIES)).map fun paTable =>
        Function.update paTable (i % RTHT_LEVEL2_ENTRIES) entry) }

/-- `rtHandleTableLookupSimpleIdx`, `rtHandleTableLookupWithCtxIdx`. -/
def lookupIdx (i : Nat) : Option Entry :=
  if i < table.cCur then
    (table.papvLevel1 (i / RTHT_LEVEL2_ENTRIES)).map fun paTable =>
      paTable (i % RTHT_LEVEL2_ENTRIES)
  else none

/-- The index of a handle and the handle of an index, in 32 bits. -/
def index (h : UInt32) : Nat := u32Sub h.toNat table.uBase
def handle (i : Nat) : UInt32 := UInt32.ofNat (i + table.uBase)

/-- The free entry an index refers to has the next one. -/
def next (i : Nat) : Nat := getFreeIdx (table.entry i).pvObj

/-- The object found for a handle, a context and the outcome of the retain callback; 0 is `NULL`. -/
def retained (h : UInt32) (pvCtx : Nat) (fRetained : Bool) : Nat :=
  match table.lookupIdx (table.index h) with
  | some entry =>
    if (!table.fContext || entry.pvCtx == pvCtx) && !isFree entry.pvObj && fRetained then
      entry.pvObj
    else 0
  | none => 0

/-- `RTHandleTableLookup`, `RTHandleTableLookupWithCtx`. -/
def lookup (h : UInt32) (pvCtx : Nat) (fRetained : Bool) : Nat := table.retained h pvCtx fRetained

/-- Join a free entry, and what follows it, with the free list. -/
def linkTail (i : Nat) : Table :=
  if table.iFreeTail = NIL_RTHT_INDEX then { table with iFreeHead := i }
  else table.setEntry table.iFreeTail { table.entry table.iFreeTail with pvObj := setFreeIdx i }

/-- Link an entry into the free list. -/
def pushFree (i : Nat) : Table :=
  { (table.setEntry i ⟨setFreeIdx NIL_RTHT_INDEX, freeCtx⟩).linkTail i with iFreeTail := i }

/-- `RTHandleTableFree`, `RTHandleTableFreeWithCtx`: the object and the table. -/
def free (h : UInt32) (pvCtx : Nat) (fRetained : Bool) : Nat × Table :=
  let pvObj := table.retained h pvCtx fRetained
  if pvObj ≠ 0 then
    let freed := table.pushFree (table.index h)
    (pvObj, { freed with cCurAllocated := freed.cCurAllocated - 1 })
  else (pvObj, table)

/-- What the allocation loop comes to behind the lock. -/
inductive Attempt where
  | handle (h : UInt32)
  | noMoreHandles
  /-- The table is to be expanded; the number of first level entries to allocate, or 0. -/
  | expand (cLevel1 : Nat)

/-- The first level entries an expansion allocates. -/
def cLevel1New : Nat :=
  let cLevel1 := if table.cLevel1 ≤ table.cCur / RTHT_LEVEL2_ENTRIES then
    table.cLevel1 + PAGE_SIZE / 8 else 0
  min cLevel1 (table.cMax / RTHT_LEVEL2_ENTRIES)

/-- Take the first entry of the free list and set it up. -/
def take (i pvObj pvCtx : Nat) : Table :=
  { table with
    iFreeHead := if i = table.iFreeTail then NIL_RTHT_INDEX else table.next i
    iFreeTail := if i = table.iFreeTail then NIL_RTHT_INDEX else table.iFreeTail
    cCurAllocated := table.cCurAllocated + 1 }.setEntry i ⟨pvObj, pvCtx⟩

/-- The allocation loop up to where the lock is dropped. -/
def attempt (pvObj pvCtx : Nat) : Attempt × Table :=
  let i := table.iFreeHead
  if i ≠ NIL_RTHT_INDEX then (.handle (table.handle i), table.take i pvObj pvCtx)
  else if table.cMax ≤ table.cCur then (.noMoreHandles, table)
  else (.expand table.cLevel1New, table)

/-- Replace the first level table, unless another thread has. -/
def growLevel1 (cLevel1 : Nat) : Table :=
  if table.cLevel1 < cLevel1 then
    { table with
      papvLevel1 := fun i => if i < table.cLevel1 then table.papvLevel1 i else none
      cLevel1 }
  else table

/-- A new second level table, linked through. -/
def newTable (cCur : Nat) (i : Nat) : Entry :=
  ⟨setFreeIdx (if i < RTHT_LEVEL2_ENTRIES - 1 then i + 1 + cCur else NIL_RTHT_INDEX), freeCtx⟩

/-- The new second level table in its place. -/
def inserted : Table :=
  { table with
    papvLevel1 := Function.update table.papvLevel1 (table.cCur / RTHT_LEVEL2_ENTRIES)
      (some (newTable table.cCur)) }

/-- Insert the new second level table, unless there is no room for it any more. -/
def insertTable : Option Table :=
  let iLevel1New := table.cCur / RTHT_LEVEL2_ENTRIES
  if iLevel1New < table.cLevel1 ∧ table.cCur < table.cMax then
    some
      { table.inserted.linkTail table.cCur with
        iFreeTail := table.cCur + RTHT_LEVEL2_ENTRIES - 1
        cCur := table.cCur + RTHT_LEVEL2_ENTRIES }
  else none

end Table

/-! ### Threads -/

/-- Where a thread is that does not hold the lock. -/
inductive Pc where
  | idle
  /-- It has left the lock to allocate memory. -/
  | expanding (pvObj pvCtx cLevel1 : Nat)
  /-- It has the memory. -/
  | allocated (pvObj pvCtx cLevel1 : Nat)
  /-- It has left the lock to free the obsolete first level table. -/
  | replaced (pvObj pvCtx : Nat)
  /-- It has left the lock to free the second level table. -/
  | raced (pvObj pvCtx : Nat)

/-- What the calls have returned so far. -/
inductive Event where
  | returned (h : UInt32) (entry : Entry)
  | freed (h : UInt32)
  | noMoreHandles

/-- The table, the threads and, the last first, what was returned. -/
structure State where
  table : Table
  pc : Nat → Pc
  events : List Event

inductive Label where
  /-- A thread calls `RTHandleTableAlloc` or `RTHandleTableAllocWithCtx`. -/
  | alloc (thread pvObj pvCtx : Nat)
  /-- It gets the memory, or fails with `VERR_NO_MEMORY`. -/
  | memory (thread : Nat) (fAllocated : Bool)
  /-- It takes the lock again. -/
  | lock (thread : Nat)
  | free (h : UInt32) (pvCtx : Nat) (fRetained : Bool)

namespace State

variable (s : State)

def setPc (thread : Nat) (pc : Pc) : State := { s with pc := Function.update s.pc thread pc }

/-- The allocation loop from the lock on. -/
def allocLoop (thread pvObj pvCtx : Nat) : State :=
  match s.table.attempt pvObj pvCtx with
  | (.handle h, table) =>
    { s with table, events := .returned h ⟨pvObj, pvCtx⟩ :: s.events }.setPc thread .idle
  | (.noMoreHandles, table) =>
    { s with table, events := .noMoreHandles :: s.events }.setPc thread .idle
  | (.expand cLevel1, table) =>
    { s with table }.setPc thread (.expanding pvObj pvCtx cLevel1)

/-- The insertion of the second level table; behind it the loop starts again. -/
def expandLoop (thread pvObj pvCtx : Nat) : State :=
  match s.table.insertTable with
  | some table => { s with table }.allocLoop thread pvObj pvCtx
  | none => s.setPc thread (.raced pvObj pvCtx)

/-- The state after a step that can be taken. -/
def next : Label → Option State
  | .alloc thread pvObj pvCtx =>
    match s.pc thread with
    | .idle => if isFree pvObj then some s else some (s.allocLoop thread pvObj pvCtx)
    | _ => none
  | .memory thread fAllocated =>
    match s.pc thread with
    | .expanding pvObj pvCtx cLevel1 =>
      some (s.setPc thread (if fAllocated then .allocated pvObj pvCtx cLevel1 else .idle))
    | _ => none
  | .lock thread =>
    match s.pc thread with
    | .allocated pvObj pvCtx cLevel1 =>
      if cLevel1 ≠ 0 then
        some ({ s with table := s.table.growLevel1 cLevel1 }.setPc thread (.replaced pvObj pvCtx))
      else some (s.expandLoop thread pvObj pvCtx)
    | .replaced pvObj pvCtx => some (s.expandLoop thread pvObj pvCtx)
    | .raced pvObj pvCtx => some (s.allocLoop thread pvObj pvCtx)
    | _ => none
  | .free h pvCtx fRetained =>
    let (pvObj, table) := s.table.free h pvCtx fRetained
    some { s with table, events := if pvObj ≠ 0 then .freed h :: s.events else s.events }

end State

end VBox.Runtime.HandleTable
