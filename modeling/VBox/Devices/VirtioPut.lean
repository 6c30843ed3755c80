import Mathlib.Algebra.GroupWithZero.Nat
import VBox.Devices.Virtio

/-!
Where `vqueuePut` puts a reply.

The segments with a host buffer are one stretch of positions; the reply belongs from `uReserved` up
to `uLen`. The header in front is left out by the first segment alone, and only there is it taken
off what is still to be written.
-/

namespace VBox.Devices.Virtio

open List
open VBox.Storage (u32Sub)

theorem u32Sub_of_le {a b : Nat} (le : b ≤ a) : u32Sub a b = a - b := if_pos le

/-- A round of the loop of `vqueuePut`. -/
structure CopyStep where
  seg : VQueueSeg
  uOffset : Nat
  cbReserved : Nat
  deriving DecidableEq

namespace CopyStep

/-- `cbSegLen`. -/
def cbSegLen (step : CopyStep) (uLen : Nat) : Nat :=
  min (u32Sub (u32Sub uLen step.cbReserved) step.uOffset)
    (u32Sub step.seg.cb.toNat step.cbReserved)

/-- No subtraction of the round wraps around. -/
def Exact (step : CopyStep) (uLen : Nat) : Prop :=
  step.cbReserved ≤ uLen ∧ step.uOffset ≤ uLen - step.cbReserved ∧
    step.cbReserved ≤ step.seg.cb.toNat

end CopyStep

/-- The rounds of the loop of `vqueuePut`. -/
def copySteps : List VQueueSeg → Nat → Nat → Nat → Nat → List CopyStep
  | [], _, _, _, _ => []
  | seg :: rest, uLen, uReserved, uOffset, cbReserved =>
    if uOffset < u32Sub uLen uReserved then
      let step : CopyStep := ⟨seg, uOffset, cbReserved⟩
      step :: copySteps rest uLen uReserved (uOffset + step.cbSegLen uLen)
        (if seg.pv.isSome then 0 else cbReserved)
    else []

/-- The rounds that write. -/
def copyWrites (segs : List VQueueSeg) (uLen uReserved uOffset cbReserved : Nat) : List CopyStep :=
  (copySteps segs uLen uReserved uOffset cbReserved).filter fun step => step.seg.pv.isSome

/-- What is written in the guest is what the rounds say. -/
theorem copySegments_eq (segs : List VQueueSeg) (uLen uReserved uOffset cbReserved : Nat) :
    Machine.copySegments segs uLen uReserved uOffset cbReserved =
      (copyWrites segs uLen uReserved uOffset cbReserved).map fun step =>
        (step.seg.addr.toNat + step.cbReserved, step.cbSegLen uLen) := by
  induction segs generalizing uOffset cbReserved with
  | nil => rfl
  | cons seg rest ih =>
    rw [Machine.copySegments, copyWrites, copySteps]
    split
    · cases buffer : seg.pv with
      | none => simp [buffer, ih, copyWrites, CopyStep.cbSegLen]
      | some pv => simp [buffer, ih, copyWrites, CopyStep.cbSegLen]
    · rfl

theorem writing_cons (step : CopyStep) (steps : List CopyStep)
    (buffer : step.seg.pv.isSome = true) :
    (step :: steps).filter (fun step => step.seg.pv.isSome) =
      step :: steps.filter fun step => step.seg.pv.isSome := filter_cons_of_pos buffer

/-- The length of the segments with a host buffer. -/
def bufferLength (segs : List VQueueSeg) : Nat :=
  ((segs.filter fun seg => seg.pv.isSome).map fun seg => seg.cb.toNat).sum

/-- The positions that are written, in the segments with a host buffer one behind the other. -/
def positions (uLen : Nat) : List CopyStep → Nat → List Nat
  | [], _ => []
  | step :: rest, start =>
    List.range' (start + step.cbReserved) (step.cbSegLen uLen) ++
      positions uLen rest (start + step.seg.cb.toNat)

/-- The reply goes exactly where it belongs. -/
structure PutRight (elem : VQueueElem) (uLen uReserved : Nat) : Prop where
  /-- Every write stays in its segment. -/
  inside : ∀ step ∈ copyWrites elem.aSegsIn uLen uReserved 0 uReserved,
    step.cbReserved + step.cbSegLen uLen ≤ step.seg.cb.toNat
  exact : ∀ step ∈ copySteps elem.aSegsIn uLen uReserved 0 uReserved, step.Exact uLen
  /-- The positions from `uReserved` to `uLen`, as far as there are any. -/
  payload : positions uLen (copyWrites elem.aSegsIn uLen uReserved 0 uReserved) 0 =
    List.range' uReserved (min uLen (bufferLength elem.aSegsIn) - uReserved)

/-- Behind the first segment, which ends at `q`: up to its end the reply meets segments with a
buffer, and where a header was left out none of them is cut by the end of the reply. -/
def Fits (uLen uReserved : Nat) : Nat → List VQueueSeg → Prop
  | _, [] => True
  | q, seg :: rest => q < uLen →
    seg.pv.isSome = true ∧ (uReserved = 0 ∨ q + seg.cb.toNat ≤ uLen) ∧
      Fits uLen uReserved (q + seg.cb.toNat) rest

/-- There is nothing to write, or the first segment takes the header and the others fit. -/
def PutFits (elem : VQueueElem) (uLen uReserved : Nat) : Prop :=
  uLen = uReserved ∨
    match elem.aSegsIn with
    | [] => True
    | seg :: rest => seg.pv.isSome = true ∧ uReserved ≤ seg.cb.toNat ∧
      Fits uLen uReserved seg.cb.toNat rest

section Rest

variable {uLen uReserved : Nat}

theorem bufferLength_cons {seg : VQueueSeg} {rest : List VQueueSeg}
    (buffer : seg.pv.isSome = true) :
    bufferLength (seg :: rest) = seg.cb.toNat + bufferLength rest := by
  simp [bufferLength, buffer]

/-- The loop ends with the reply. -/
theorem copySteps_done {segs : List VQueueSeg} {uOffset cbReserved : Nat}
    (ordered : uReserved ≤ uLen) (done : uLen - uReserved ≤ uOffset) :
    copySteps segs uLen uReserved uOffset cbReserved = [] := by
  cases segs with
  | nil => rfl
  | cons seg rest => rw [copySteps, u32Sub_of_le ordered, if_neg (Nat.not_lt.mpr done)]

/-- A round behind the first segment, at position `q` of the segments with a buffer. -/
theorem copySteps_rest {seg : VQueueSeg} {rest : List VQueueSeg} {q : Nat}
    (ordered : uReserved ≤ uLen) (low : uReserved ≤ q) (more : q < uLen) :
    copySteps (seg :: rest) uLen uReserved (q - uReserved) 0 =
      ⟨seg, q - uReserved, 0⟩ :: copySteps rest uLen uReserved
        (q - uReserved + min (uLen - (q - uReserved)) seg.cb.toNat) 0 := by
  rw [copySteps, u32Sub_of_le ordered, if_pos (by omega)]
  simp only [CopyStep.cbSegLen]
  rw [u32Sub_of_le (Nat.zero_le uLen), u32Sub_of_le (by omega), u32Sub_of_le (Nat.zero_le _),
    ite_self]
  rfl

theorem cbSegLen_rest {seg : VQueueSeg} {q : Nat} (more : q < uLen) :
    CopyStep.cbSegLen ⟨seg, q - uReserved, 0⟩ uLen = min (uLen - (q - uReserved)) seg.cb.toNat := by
  rw [CopyStep.cbSegLen, u32Sub_of_le (Nat.zero_le uLen), u32Sub_of_le (by
    simp only
    omega), u32Sub_of_le (Nat.zero_le _)]
  rfl

section

variable {segs : List VQueueSeg} {uOffset : Nat} (ordered : uReserved ≤ uLen) {step : CopyStep}
  (member : step ∈ copySteps segs uLen uReserved uOffset 0)

include ordered member

/-- Behind the first segment every round is exact and stays in its segment. -/
theorem copySteps_rest_exact : step.Exact uLen ∧ step.cbReserved = 0 := by
  induction segs generalizing uOffset with
  | nil => cases member
  | cons seg rest ih =>
    rw [copySteps, u32Sub_of_le ordered] at member
    split at member
    · rename_i more
      rw [ite_self] at member
      rcases mem_cons.mp member with rfl | member
      · exact ⟨⟨Nat.zero_le _, by simp only; omega, Nat.zero_le _⟩, rfl⟩
      · exact ih member
    · cases member

theorem inside_rest : step.cbReserved + step.cbSegLen uLen ≤ step.seg.cb.toNat := by
  obtain ⟨-, none⟩ := copySteps_rest_exact ordered member
  rw [none, Nat.zero_add, CopyStep.cbSegLen, none, u32Sub_of_le (Nat.zero_le step.seg.cb.toNat)]
  exact Nat.min_le_right _ _

end

section

variable {segs : List VQueueSeg} {q : Nat} (ordered : uReserved ≤ uLen) (low : uReserved ≤ q)

include ordered low

/-- Where the segments fit, the rest of the reply is written in order. -/
theorem positions_rest (fits : Fits uLen uReserved q segs) :
    positions uLen (copyWrites segs uLen uReserved (q - uReserved) 0) q =
      range' q (min uLen (q + bufferLength segs) - q) := by
  induction segs generalizing q with
  | nil =>
    have none : min uLen (q + bufferLength []) - q = 0 := by
      simp only [bufferLength, filter_nil, map_nil, sum_nil]
      omega
    rw [none]
    rfl
  | cons seg rest ih =>
    by_cases more : q < uLen
    · obtain ⟨buffer, uncut, fits⟩ := fits more
      have len := @cbSegLen_rest uLen uReserved seg q more
      rw [copyWrites, copySteps_rest ordered low more, writing_cons _ _ buffer, positions,
        len, bufferLength_cons buffer, Nat.add_zero]
      by_cases whole : q + seg.cb.toNat ≤ uLen
      · have all : min (uLen - (q - uReserved)) seg.cb.toNat = seg.cb.toNat := by omega
        have next : q - uReserved + seg.cb.toNat = q + seg.cb.toNat - uReserved := by omega
        have tail := ih (Nat.le_add_right_of_le low) fits
        rw [copyWrites] at tail
        rw [all, next, tail, ← Nat.add_assoc]
        have split : min uLen (q + seg.cb.toNat + bufferLength rest) - q =
            seg.cb.toNat + (min uLen (q + seg.cb.toNat + bufferLength rest) -
              (q + seg.cb.toNat)) := by omega
        rw [split, ← range'_append_1]
      · have zero : uReserved = 0 := uncut.resolve_right whole
        rw [copySteps_done ordered (by omega)]
        have len : min (uLen - (q - uReserved)) seg.cb.toNat =
            min uLen (q + (seg.cb.toNat + bufferLength rest)) - q := by omega
        rw [len, filter_nil, positions, append_nil]
    · rw [copyWrites, copySteps_done ordered (by omega)]
      have none : min uLen (q + bufferLength (seg :: rest)) - q = 0 := by omega
      rw [none]
      rfl

/-- Where they do not, the position behind the reply is written. -/
theorem uLen_mem_positions (buffers : ∀ seg ∈ segs, seg.pv.isSome = true)
    (cut : ¬ Fits uLen uReserved q segs) :
    uLen ∈ positions uLen (copyWrites segs uLen uReserved (q - uReserved) 0) q := by
  induction segs generalizing q with
  | nil => exact absurd trivial cut
  | cons seg rest ih =>
    have buffer := buffers seg mem_cons_self
    have more : q < uLen := by
      by_contra done
      exact cut fun more => absurd more done
    have len := @cbSegLen_rest uLen uReserved seg q more
    rw [copyWrites, copySteps_rest ordered low more, writing_cons _ _ buffer, positions,
      len, mem_append, Nat.add_zero]
    by_cases whole : q + seg.cb.toNat ≤ uLen
    · right
      have all : min (uLen - (q - uReserved)) seg.cb.toNat = seg.cb.toNat := by omega
      have next : q - uReserved + seg.cb.toNat = q + seg.cb.toNat - uReserved := by omega
      rw [all, next]
      refine ih (Nat.le_add_right_of_le low)
        (fun seg member => buffers seg (mem_cons_of_mem _ member)) fun fits => ?_
      exact cut fun _ => ⟨buffer, .inr whole, fits⟩
    · left
      have reserved : uReserved ≠ 0 := by
        rintro rfl
        refine cut fun _ => ⟨buffer, .inl rfl, ?_⟩
        cases rest with
        | nil => trivial
        | cons _ _ => exact fun more => absurd more (by omega)
      rw [mem_range'_1]
      omega

end

end Rest

section Put

variable {elem : VQueueElem} {uLen uReserved : Nat}

section

variable {seg : VQueueSeg} {rest : List VQueueSeg} (ordered : uReserved ≤ uLen)

include ordered

/-- The first round, for a segment with a buffer that takes the header. -/
theorem copySteps_first (more : uReserved < uLen) (buffer : seg.pv.isSome = true)
    (room : uReserved ≤ seg.cb.toNat) :
    CopyStep.cbSegLen ⟨seg, 0, uReserved⟩ uLen = min uLen seg.cb.toNat - uReserved ∧
      copySteps (seg :: rest) uLen uReserved 0 uReserved =
        ⟨seg, 0, uReserved⟩ :: copySteps rest uLen uReserved
          (min uLen seg.cb.toNat - uReserved) 0 := by
  have len : CopyStep.cbSegLen ⟨seg, 0, uReserved⟩ uLen = min uLen seg.cb.toNat - uReserved := by
    rw [CopyStep.cbSegLen, u32Sub_of_le ordered, u32Sub_of_le (Nat.zero_le _), u32Sub_of_le room]
    omega
  refine ⟨len, ?_⟩
  rw [copySteps, u32Sub_of_le ordered, if_pos (by omega)]
  simp only
  rw [len, if_pos buffer, Nat.zero_add]

/-- The rounds behind the first segment: none if the reply ends in it. -/
theorem copySteps_behind (room : uReserved ≤ seg.cb.toNat) :
    copySteps rest uLen uReserved (min uLen seg.cb.toNat - uReserved) 0 =
      copySteps rest uLen uReserved (seg.cb.toNat - uReserved) 0 := by
  by_cases short : uLen ≤ seg.cb.toNat
  · rw [copySteps_done ordered (by omega), copySteps_done ordered (by omega)]
  · rw [Nat.min_eq_right (by omega)]

end

theorem putRight_of_fits (ordered : uReserved ≤ uLen) (fits : PutFits elem uLen uReserved) :
    PutRight elem uLen uReserved := by
  by_cases more : uReserved < uLen
  · have fits := fits.resolve_left (by omega)
    cases segs : elem.aSegsIn with
    | nil =>
      constructor <;> rw [segs]
      · intro step member
        cases member
      · intro step member
        cases member
      · simp [copyWrites, copySteps, positions, bufferLength]
    | cons seg rest =>
      rw [segs] at fits
      obtain ⟨buffer, room, fits⟩ := fits
      obtain ⟨len, first⟩ := @copySteps_first _ _ seg rest ordered more buffer room
      rw [copySteps_behind ordered room] at first
      constructor <;> rw [segs]
      · intro step member
        rw [copyWrites, first] at member
        rcases mem_cons.mp (mem_filter.mp member).1 with rfl | member
        · rw [len]
          simp only
          omega
        · exact inside_rest ordered member
      · intro step member
        rw [first] at member
        rcases mem_cons.mp member with rfl | member
        · exact ⟨ordered, Nat.zero_le _, room⟩
        · exact (copySteps_rest_exact ordered member).1
      · have tail := positions_rest ordered room fits
        rw [copyWrites] at tail
        rw [copyWrites, first, writing_cons _ _ buffer, positions, len,
          bufferLength_cons buffer, Nat.zero_add, Nat.zero_add, tail]
        by_cases short : uLen ≤ seg.cb.toNat
        · have none : min uLen (seg.cb.toNat + bufferLength rest) - seg.cb.toNat = 0 := by omega
          have all : min uLen (seg.cb.toNat + bufferLength rest) = min uLen seg.cb.toNat := by
            omega
          rw [none, all, range'_zero, append_nil]
        · have split : min uLen (seg.cb.toNat + bufferLength rest) - uReserved =
              (min uLen seg.cb.toNat - uReserved) +
                (min uLen (seg.cb.toNat + bufferLength rest) - seg.cb.toNat) := by omega
          have start : uReserved + (min uLen seg.cb.toNat - uReserved) = seg.cb.toNat := by omega
          rw [split, ← range'_append_1, start]
  · have done : ∀ segs, copySteps segs uLen uReserved 0 uReserved = [] := fun segs =>
      copySteps_done ordered (by omega)
    constructor
    · intro step member
      rw [copyWrites, done] at member
      cases member
    · intro step member
      rw [done] at member
      cases member
    · have none : min uLen (bufferLength elem.aSegsIn) - uReserved = 0 := by omega
      rw [copyWrites, done, none]
      rfl

theorem fits_of_putRight (ordered : uReserved ≤ uLen)
    (buffers : ∀ seg ∈ elem.aSegsIn, seg.pv.isSome = true)
    (right : PutRight elem uLen uReserved) : PutFits elem uLen uReserved := by
  by_cases more : uReserved < uLen
  · right
    cases segs : elem.aSegsIn with
    | nil => trivial
    | cons seg rest =>
      have buffer := buffers seg (segs ▸ mem_cons_self)
      have room : uReserved ≤ seg.cb.toNat := by
        refine (right.exact ⟨seg, 0, uReserved⟩ ?_).2.2
        rw [segs, copySteps, u32Sub_of_le ordered, if_pos (by omega)]
        exact mem_cons_self
      refine ⟨buffer, room, ?_⟩
      by_contra cut
      obtain ⟨len, first⟩ := @copySteps_first _ _ seg rest ordered more buffer room
      rw [copySteps_behind ordered room] at first
      have behind := uLen_mem_positions ordered room
        (fun seg member => buffers seg (segs ▸ mem_cons_of_mem _ member)) cut
      rw [copyWrites] at behind
      have payload := right.payload
      rw [segs, copyWrites, first, writing_cons _ _ buffer, positions, Nat.zero_add] at payload
      have member := mem_append_right
        (range' (0 + uReserved) (CopyStep.cbSegLen ⟨seg, 0, uReserved⟩ uLen)) behind
      rw [Nat.zero_add] at member
      simp only at payload
      rw [Nat.zero_add] at payload
      rw [payload, mem_range'_1] at member
      omega
  · exact .inl (by omega)

end Put

/-- `vqueuePut` writes what the rounds say. That is right if the segments fit, and where each has a
buffer it is right only then. -/
theorem vqueuePut_right (m : Machine) (elem : VQueueElem) {uLen uReserved : UInt32}
    (ordered : uReserved.toNat ≤ uLen.toNat) :
    (m.vqueuePut elem uLen uReserved).written = m.written ++
        (copyWrites elem.aSegsIn uLen.toNat uReserved.toNat 0 uReserved.toNat).map (fun step =>
          (step.seg.addr.toNat + step.cbReserved, step.cbSegLen uLen.toNat)) ∧
      (PutFits elem uLen.toNat uReserved.toNat → PutRight elem uLen.toNat uReserved.toNat) ∧
      ((∀ seg ∈ elem.aSegsIn, seg.pv.isSome = true) →
        (PutRight elem uLen.toNat uReserved.toNat ↔ PutFits elem uLen.toNat uReserved.toNat)) :=
  ⟨congrArg (m.written ++ ·) (copySegments_eq _ _ _ _ _), putRight_of_fits ordered,
    fun buffers => ⟨fits_of_putRight ordered buffers, putRight_of_fits ordered⟩⟩

/-- A segment of that length, with or without a buffer. -/
def plainSeg (pv : Option Nat) (cb : UInt32) : VQueueSeg := ⟨0x1000, pv, cb⟩

/-- A packet that ends with the second of two segments. -/
theorem vqueuePut_right_packet : PutRight ⟨0, [plainSeg (some 0) 62, plainSeg (some 50) 50], []⟩
    112 12 := by
  have queue := Machine.initial 4 1 (fun _ => ⟨0, 0, 0, 0⟩) (fun _ => 0) fun _ => ⟨0, 0⟩
  refine (@vqueuePut_right queue ⟨0, [plainSeg (some 0) 62, plainSeg (some 50) 50], []⟩ 112 12
    (by decide)).2.1 (.inr ⟨rfl, by decide, fun _ => ?_⟩)
  exact ⟨rfl, .inr (by decide), trivial⟩

/-- Behind a header of 12 bytes: a second segment with room to spare gets 12 bytes too many, a first
segment that is shorter is written past its end, and what a segment without a buffer would have
taken is lost. -/
theorem exists_put_wrong :
    ¬ PutRight ⟨0, [plainSeg (some 0) 62, plainSeg (some 50) 100], []⟩ 112 12 ∧
      ¬ PutRight ⟨0, [plainSeg (some 0) 10, plainSeg (some 50) 100], []⟩ 112 12 ∧
      ¬ PutRight ⟨0, [plainSeg none 42, plainSeg (some 0) 200], []⟩ 112 12 := by
  refine ⟨fun right => ?_, fun right => ?_, fun right => ?_⟩
  · exact absurd right.payload (by decide)
  · exact absurd (right.inside ⟨plainSeg (some 0) 10, 0, 12⟩ (by decide)) (by decide)
  · exact absurd right.payload (by decide)

end VBox.Devices.Virtio
