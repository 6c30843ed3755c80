import Mathlib.Algebra.Group.Nat.Defs

/-!
Requests of the block cache.

`PDMR3BlkCacheRead` and `PDMR3BlkCacheWrite` cut a request into pieces by what the cache
holds at each offset. A piece is copied, waits for a transfer of a cache entry, or is
passed to the medium; the request counts what it still waits for in `cXfersPending`.
What the cache answers at each offset, what the medium's enqueue function returns and
when transfers complete is not fixed here.
-/

namespace VBox.Vmm.Pdm

def vinfSuccess : Int := 0

def vinfAioTaskPending : Int := 4800

def verrInvalidState : Int := -79

/-- `RT_FAILURE` -/
def rtFailure (rc : Int) : Bool := rc < 0

inductive BlkCacheDir where
  | read
  | write
  deriving DecidableEq, Repr

/-- The lists an entry can be on; the last one is the ghost list. -/
inductive BlkLruList where
  | lruRecentlyUsedIn
  | lruFrequentlyUsed
  | lruRecentlyUsedOut
  deriving DecidableEq, Repr

/-- What a piece finds of an entry. The medium may have refused the transfer of an entry
that is marked as in progress; `enqueued` says that it has not. -/
structure BlkCacheEntry where
  key : Nat
  cbData : Nat
  pList : BlkLruList
  ioInProgress : Bool
  isDirty : Bool
  enqueued : Bool

/-- What the cache answers at an offset: the entry there, with the answer of
`pdmBlkCacheReclaim` should it be a ghost entry; or no entry, with the start of the next
one and whether `pdmBlkCacheEntryCreate` gets its memory. -/
inductive BlkCacheView where
  | entry (pEntry : BlkCacheEntry) (fEnough : Bool)
  | noEntry (above : Option Nat) (created : Bool)

/-- How a piece is served. -/
inductive Piece where
  | copied
  /-- `pdmBlkCacheEntryWaitersAdd` on an entry in progress. -/
  | waits (enqueued : Bool)
  /-- `pdmBlkCacheEntryWaitersAdd` and `pdmBlkCacheEntryReadFromMedium`. -/
  | fetched
  /-- `pdmBlkCacheRequestPassthrough` -/
  | passedThrough
  deriving DecidableEq, Repr

/-- The answer fits the offset it is given at. -/
def BlkCacheView.fits (off : Nat) : BlkCacheView → Bool
  | entry pEntry _ => pEntry.key ≤ off && off < pEntry.key + pEntry.cbData
  | noEntry above _ => above.all (off < ·)

/-- The bytes up to the next entry, at most `cb`. -/
def clipToAbove (off cb : Nat) : Option Nat → Nat
  | some above => if above < off + cb then above - off else cb
  | none => cb

/-- The round of the loop of `PDMR3BlkCacheRead` at `off`, without
`VBOX_WITH_IO_READ_CACHE`. -/
def readPiece (off cbRead : Nat) : BlkCacheView → Nat × Piece
  | .entry pEntry fEnough =>
      let cbToRead := min (pEntry.cbData - (off - pEntry.key)) cbRead
      if pEntry.pList = .lruRecentlyUsedIn ∨ pEntry.pList = .lruFrequentlyUsed then
        if pEntry.ioInProgress && !pEntry.isDirty then (cbToRead, .waits pEntry.enqueued)
        else (cbToRead, .copied)
      else if fEnough then (cbToRead, .fetched)
      else (cbToRead, .passedThrough)
  | .noEntry above _ => (clipToAbove off cbRead above, .passedThrough)

/-- The round of the loop of `PDMR3BlkCacheWrite` at `off`. A new entry takes the whole
piece; its size is a 32-bit word. -/
def writePiece (off cbWrite : Nat) : BlkCacheView → Nat × Piece
  | .entry pEntry fEnough =>
      let cbToWrite := min (pEntry.cbData - (off - pEntry.key)) cbWrite
      if pEntry.pList = .lruRecentlyUsedIn ∨ pEntry.pList = .lruFrequentlyUsed then
        if pEntry.isDirty then
          if pEntry.ioInProgress then (cbToWrite, .waits pEntry.enqueued)
          else (cbToWrite, .copied)
        else if pEntry.ioInProgress then (cbToWrite, .waits pEntry.enqueued)
        else (cbToWrite, .copied)
      else if fEnough then (cbToWrite, .fetched)
      else (cbToWrite, .passedThrough)
  | .noEntry above created =>
      let cbToWrite := clipToAbove off (cbWrite % 2 ^ 32) above
      if created && cbWrite < 2 ^ 32 then (cbToWrite, .copied) else (cbToWrite, .passedThrough)

def pieceAt : BlkCacheDir → Nat → Nat → BlkCacheView → Nat × Piece
  | .read => readPiece
  | .write => writePiece

/-- `PDMBLKCACHEREQ` -/
structure PdmBlkCacheReq where
  rcReq : Int
  cXfersPending : Nat

/-- How a request is finished. -/
inductive Finish where
  | returned (rc : Int)
  | handler (rc : Int)
  deriving DecidableEq, Repr

def Finish.status : Finish → Int
  | returned rc => rc
  | handler rc => rc

/-- A request under way. `submitting` is set until the submitting call has returned;
`inFlight` counts the transfers that the medium has taken and not completed; the
structure is gone once it has been freed. -/
structure ReqState where
  dir : BlkCacheDir
  off : Nat
  cbLeft : Nat
  pReq : Option PdmBlkCacheReq
  submitting : Bool
  inFlight : Nat
  finished : List Finish

/-- `ASMAtomicIncU32(&pReq->cXfersPending)` -/
def ReqState.incXfers (s : ReqState) : ReqState :=
  { s with pReq := s.pReq.map fun pReq =>
      { pReq with cXfersPending := (pReq.cXfersPending + 1) % 2 ^ 32 } }

/-- `pdmBlkCacheEnqueue`: the medium takes the transfer or not. -/
def ReqState.enqueue (s : ReqState) (rc : Int) : ReqState :=
  if rtFailure rc then s else { s with inFlight := s.inFlight + 1 }

/-- The submitting call allocates the request and keeps it for itself. -/
def reqSubmit (dir : BlkCacheDir) (off cb : Nat) : ReqState :=
  ({ dir := dir, off := off, cbLeft := cb, pReq := some ⟨vinfSuccess, 0⟩, submitting := true,
     inFlight := 0, finished := [] } : ReqState).incXfers

/-- `pdmBlkCacheReqUpdate`; the flag says whether the request is complete. -/
def pdmBlkCacheReqUpdate (s : ReqState) (rcReq : Int) (fCallHandler : Bool) : ReqState × Bool :=
  match s.pReq with
  | none => (s, false)
  | some pReq =>
      let rc := if rtFailure rcReq && pReq.rcReq = vinfSuccess then rcReq else pReq.rcReq
      let cXfersPending := (pReq.cXfersPending + (2 ^ 32 - 1)) % 2 ^ 32
      if cXfersPending = 0 then
        ({ s with
           pReq := none
           finished := if fCallHandler then s.finished ++ [.handler rc] else s.finished }, true)
      else ({ s with pReq := some ⟨rc, cXfersPending⟩ }, false)

/-- One round of the submitting call's loop. What the enqueue function returns is
ignored. -/
def reqRound (s : ReqState) (view : BlkCacheView) (rcEnqueue : Int) : ReqState :=
  let (cb, piece) := pieceAt s.dir s.off s.cbLeft view
  let s := { s with off := s.off + cb, cbLeft := s.cbLeft - cb }
  match piece with
  | .copied => s
  | .waits enqueued => if enqueued then s.incXfers.enqueue vinfSuccess else s.incXfers
  | .fetched | .passedThrough => s.incXfers.enqueue rcEnqueue

/-- The end of the submitting call: its own reference goes. -/
def reqLeave (s : ReqState) : ReqState :=
  match pdmBlkCacheReqUpdate { s with submitting := false } vinfSuccess false with
  | (s, true) => { s with finished := s.finished ++ [.returned vinfSuccess] }
  | (s, false) => s

/-- A transfer the request waits for completes. -/
def reqXferComplete (s : ReqState) (rcIoXfer : Int) : ReqState :=
  (pdmBlkCacheReqUpdate { s with inFlight := s.inFlight - 1 } rcIoXfer true).1

inductive ReqLabel where
  | round (view : BlkCacheView) (rcEnqueue : Int)
  | leave
  | complete (rcIoXfer : Int)

def ReqState.step (s : ReqState) : ReqLabel → Option ReqState
  | .round view rcEnqueue =>
      if s.submitting && 0 < s.cbLeft && view.fits s.off then some (reqRound s view rcEnqueue)
      else none
  | .leave => if s.submitting && s.cbLeft = 0 then some (reqLeave s) else none
  | .complete rcIoXfer => if 0 < s.inFlight then some (reqXferComplete s rcIoXfer) else none

def ReqStep (s : ReqState) (label : ReqLabel) (s' : ReqState) : Prop := s.step label = some s'

end VBox.Vmm.Pdm
