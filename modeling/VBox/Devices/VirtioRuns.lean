import VBox.Lib.Run
import VBox.Lib.RingWindow
import VBox.Devices.Virtio

/-!
A virtio queue neither loses nor repeats buffers.

The indices of both rings count modulo 2^16 what the histories count without end, and each ring
holds its history from where the other side has got to. Since never more than one lap of a ring
is under way, and the ring is at most a lap of the indices, equal indices mean equal histories.
-/

namespace VBox.Devices.Virtio

open List (length length_append)
open VBox.Lib Option

/-- The ring sizes the claims about a queue are made for. -/
structure RingSize (uSize : Nat) : Prop where
  power : uSize.isPowerOfTwo
  le : uSize ≤ VRING_MAX_SIZE

namespace RingSize

variable {uSize : Nat} (ring : RingSize uSize)
include ring

theorem dvd : uSize ∣ 2 ^ 16 := by
  obtain ⟨k, rfl⟩ := ring.power
  apply Nat.pow_dvd_pow
  by_contra large
  have more : 2 ^ 17 ≤ 2 ^ k := Nat.pow_le_pow_right (by decide) (by omega)
  have small : 2 ^ k ≤ 1024 := ring.le
  omega

theorem lt : uSize < 2 ^ 16 := Nat.lt_of_le_of_lt ring.le (by decide)

/-- The place of a wrapped index is the place of the count behind it. -/
theorem place (i : Nat) : i % 2 ^ 16 % uSize = i % uSize := wrapped_place ring.dvd i

theorem place_add (i k : Nat) : (i % 2 ^ 16 + k) % uSize = (i + k) % uSize := by
  rw [Nat.add_mod, ring.place, ← Nat.add_mod]

end RingSize

/-! ### The invariant -/

/-- The indices and rings against the histories. -/
structure Agrees (m : Machine) : Prop where
  ringSize : RingSize m.queue.vring.uSize
  availIndex : m.avail.uNextFreeIndex = m.published.length % 2 ^ 16
  nextAvail : m.queue.uNextAvailIndex = m.removed.length % 2 ^ 16
  nextUsed : m.queue.uNextUsedIndex = m.puts.length % 2 ^ 16
  lastUsed : m.uLastUsedIndex = m.found.length % 2 ^ 16
  usedIndex : ∃ n, m.found.length ≤ n ∧ n ≤ m.puts.length ∧ m.used.uIndex = n % 2 ^ 16
  removed_prefix : m.removed <+: m.published
  found_prefix : m.found <+: m.puts
  puts_le : m.puts.length ≤ m.removed.length
  outstanding : m.published.length + m.staged.length ≤ m.found.length + m.queue.vring.uSize
  availRing : Holds m.avail.auRing m.queue.vring.uSize (m.published ++ m.staged) m.removed.length
  usedRing : Holds m.used.aRing m.queue.vring.uSize m.puts m.found.length

theorem agrees_initial {uSize : Nat} (ring : RingSize uSize) (uPageNumber : Nat)
    (aDescs : Nat → VRingDesc) (auRing : Nat → UInt16) (aRing : Nat → VRingUsedElem) :
    Agrees (Machine.initial uSize uPageNumber aDescs auRing aRing) where
  ringSize := ring
  availIndex := rfl
  nextAvail := rfl
  nextUsed := rfl
  lastUsed := rfl
  usedIndex := ⟨0, Nat.le_refl 0, Nat.le_refl 0, rfl⟩
  removed_prefix := List.prefix_refl _
  found_prefix := List.prefix_refl _
  puts_le := Nat.le_refl 0
  outstanding := Nat.zero_le _
  availRing := Holds.nil
  usedRing := Holds.nil

theorem next_mod (n : Nat) : Machine.next (n % 2 ^ 16) = (n + 1) % 2 ^ 16 := by
  rw [Machine.next, Nat.mod_add_mod]

namespace Agrees

variable {m : Machine} (a : Agrees m)
include a

/-- The counts in the order in which a buffer passes through the queue. -/
theorem counts : m.found.length ≤ m.puts.length ∧ m.puts.length ≤ m.removed.length ∧
    m.removed.length ≤ m.published.length ∧
    m.published.length + m.staged.length ≤ m.found.length + m.queue.vring.uSize :=
  ⟨a.found_prefix.length_le, a.puts_le, a.removed_prefix.length_le, a.outstanding⟩

/-- Equal indices mean that everything published has been removed. -/
theorem isEmpty_iff : m.vqueueIsEmpty = true ↔ m.removed = m.published := by
  obtain ⟨found, puts, removed, room⟩ := a.counts
  have small := a.ringSize.lt
  rw [Machine.vqueueIsEmpty, beq_iff_eq, a.availIndex, a.nextAvail]
  constructor
  · intro same
    have equal : m.removed.length = m.published.length :=
      place_inj removed (by omega) same.symm
    exact a.removed_prefix.eq_of_length equal
  · intro same
    rw [same]

/-- A queue that is not empty holds the next head at the device's position. -/
theorem readAvail (present : m.removed.length < m.published.length) :
    m.vringReadAvail m.queue.uNextAvailIndex = m.published[m.removed.length] := by
  have inRing : m.removed.length < (m.published ++ m.staged).length := by
    rw [length_append]
    omega
  have held := a.availRing m.removed.length inRing (Nat.le_refl _)
  rw [Machine.vringReadAvail, a.nextAvail, a.ringSize.place, held, List.getElem_append_left present]

theorem removed_lt (nonempty : m.vqueueIsEmpty = false) :
    m.removed.length < m.published.length := by
  apply Nat.lt_of_le_of_ne a.removed_prefix.length_le
  intro equal
  have empty := a.isEmpty_iff.mpr (a.removed_prefix.eq_of_length equal)
  rw [nonempty] at empty
  cases empty

/-- Taking the next head off the ring. -/
theorem remove (nonempty : m.vqueueIsEmpty = false) : Agrees m.remove := by
  have present := a.removed_lt nonempty
  have head := a.readAvail present
  obtain ⟨rest, split⟩ := a.removed_prefix
  have cons : rest = m.published[m.removed.length] :: rest.tail := by
    cases rest with
    | nil => simp [← split] at present
    | cons x xs => simp [← split]
  constructor
  case ringSize => exact a.ringSize
  case availIndex => exact a.availIndex
  case nextAvail =>
    show Machine.next m.queue.uNextAvailIndex = (m.removed ++ [_]).length % 2 ^ 16
    rw [a.nextAvail, next_mod, length_append]
    rfl
  case nextUsed => exact a.nextUsed
  case lastUsed => exact a.lastUsed
  case usedIndex => exact a.usedIndex
  case removed_prefix =>
    refine ⟨rest.tail, ?_⟩
    show m.removed ++ [m.vringReadAvail m.queue.uNextAvailIndex] ++ rest.tail = m.published
    rw [head, List.append_assoc, List.singleton_append, ← cons, split]
  case found_prefix => exact a.found_prefix
  case puts_le =>
    show m.puts.length ≤ (m.removed ++ [_]).length
    rw [length_append]
    exact a.puts_le.trans (Nat.le_add_right _ _)
  case outstanding => exact a.outstanding
  case availRing =>
    apply a.availRing.later
    show m.removed.length ≤ (m.removed ++ [_]).length
    rw [length_append]
    exact Nat.le_add_right _ _
  case usedRing => exact a.usedRing

theorem skip : Agrees m.vqueueSkip.2 := by
  unfold Machine.vqueueSkip
  cases empty : m.vqueueIsEmpty with
  | true => exact a
  | false => exact a.remove empty

theorem get {fRemove : Bool} {result : Option VQueueElem} {m' : Machine}
    (got : m.vqueueGet fRemove = some (result, m')) : Agrees m' := by
  unfold Machine.vqueueGet at got
  cases empty : m.vqueueIsEmpty with
  | true =>
    rw [empty, if_pos rfl, some.injEq, Prod.mk.injEq] at got
    exact got.2 ▸ a
  | false =>
    rw [empty, if_neg Bool.false_ne_true, map_eq_some_iff] at got
    obtain ⟨elem, -, same⟩ := got
    rw [← (Prod.mk.inj same).2]
    cases fRemove with
    | true => exact a.remove empty
    | false => exact a

/-- An element put for a buffer that was removed. -/
theorem put (owed : m.puts.length < m.removed.length) (elem : VQueueElem)
    (uLen uReserved : UInt32) : Agrees (m.vqueuePut elem uLen uReserved) := by
  obtain ⟨found, -, removed, room⟩ := a.counts
  obtain ⟨n, foundLe, putsLe, usedIndex⟩ := a.usedIndex
  constructor
  case ringSize => exact a.ringSize
  case availIndex => exact a.availIndex
  case nextAvail => exact a.nextAvail
  case nextUsed =>
    show Machine.next m.queue.uNextUsedIndex = (m.puts ++ [_]).length % 2 ^ 16
    rw [a.nextUsed, next_mod, length_append]
    rfl
  case lastUsed => exact a.lastUsed
  case usedIndex =>
    refine ⟨n, foundLe, ?_, usedIndex⟩
    show n ≤ (m.puts ++ [_]).length
    rw [length_append]
    exact putsLe.trans (Nat.le_add_right _ _)
  case removed_prefix => exact a.removed_prefix
  case found_prefix => exact a.found_prefix.trans (List.prefix_append _ _)
  case puts_le =>
    show (m.puts ++ [_]).length ≤ m.removed.length
    rw [length_append]
    exact owed
  case outstanding => exact a.outstanding
  case availRing => exact a.availRing
  case usedRing =>
    show Holds (Function.update m.used.aRing
      (m.queue.uNextUsedIndex % m.queue.vring.uSize) _) _ (m.puts ++ [_]) m.found.length
    rw [a.nextUsed, a.ringSize.place]
    exact a.usedRing.push (by omega) _

theorem sync : Agrees m.vqueueSync :=
  { a with usedIndex := ⟨m.puts.length, a.found_prefix.length_le, Nat.le_refl _, a.nextUsed⟩ }

theorem stage (room : m.published.length + m.staged.length <
    m.found.length + m.queue.vring.uSize) (head : UInt16) : Agrees (m.stage head) := by
  obtain ⟨found, puts, removed, -⟩ := a.counts
  refine { a with outstanding := ?_, availRing := ?_ }
  · show m.published.length + (m.staged ++ [head]).length ≤ m.found.length + m.queue.vring.uSize
    rw [length_append]
    exact room
  · show Holds (Function.update m.avail.auRing
      ((m.avail.uNextFreeIndex + m.staged.length) % m.queue.vring.uSize) head) _
      (m.published ++ (m.staged ++ [head])) m.removed.length
    rw [a.availIndex, a.ringSize.place_add, ← List.append_assoc, ← length_append]
    apply a.availRing.push
    rw [length_append]
    omega

theorem publish : Agrees m.publish := by
  refine { a with availIndex := ?_, removed_prefix := ?_, outstanding := ?_, availRing := ?_ }
  · show (m.avail.uNextFreeIndex + m.staged.length) % 2 ^ 16 =
      (m.published ++ m.staged).length % 2 ^ 16
    rw [a.availIndex, Nat.mod_add_mod, length_append]
  · exact a.removed_prefix.trans (List.prefix_append _ _)
  · show (m.published ++ m.staged).length + 0 ≤ m.found.length + m.queue.vring.uSize
    rw [length_append]
    exact a.outstanding
  · show Holds _ _ ((m.published ++ m.staged) ++ []) _
    rw [List.append_nil]
    exact a.availRing

/-- The guest finds the elements put since it last looked, as far as the index covers them. -/
theorem found_append_fresh {n : Nat} (foundLe : m.found.length ≤ n) (putsLe : n ≤ m.puts.length)
    (usedIndex : m.used.uIndex = n % 2 ^ 16) : m.found ++ m.fresh = m.puts.take n := by
  obtain ⟨found, puts, removed, room⟩ := a.counts
  have small := a.ringSize.lt
  have distance : (m.used.uIndex + 2 ^ 16 - m.uLastUsedIndex) % 2 ^ 16 = n - m.found.length := by
    rw [usedIndex, a.lastUsed]
    exact wrapped_distance foundLe (by omega)
  have places : ∀ k, (m.uLastUsedIndex + k) % m.queue.vring.uSize =
      (m.found.length + k) % m.queue.vring.uSize := fun k => by
    rw [a.lastUsed, a.ringSize.place_add]
  have fresh : m.fresh = (m.puts.drop m.found.length).take (n - m.found.length) := by
    unfold Machine.fresh
    simp only [distance, places]
    exact a.usedRing.read (by omega)
  have start : m.found = m.puts.take m.found.length := List.prefix_iff_eq_take.mp a.found_prefix
  calc m.found ++ m.fresh
      = m.puts.take m.found.length ++ (m.puts.drop m.found.length).take (n - m.found.length) := by
        rw [fresh, ← start]
    _ = m.puts.take (m.found.length + (n - m.found.length)) := (List.take_add).symm
    _ = m.puts.take n := by rw [Nat.add_sub_cancel' foundLe]

theorem find : Agrees m.find := by
  obtain ⟨n, foundLe, putsLe, usedIndex⟩ := a.usedIndex
  have taken := a.found_append_fresh foundLe putsLe usedIndex
  have length : (m.found ++ m.fresh).length = n := by
    rw [taken, List.length_take, Nat.min_eq_left putsLe]
  refine { a with
    lastUsed := ?_, usedIndex := ?_, found_prefix := ?_, outstanding := ?_, usedRing := ?_ }
  · show m.used.uIndex = (m.found ++ m.fresh).length % 2 ^ 16
    rw [length, usedIndex]
  · exact ⟨n, length.le, putsLe, usedIndex⟩
  · show m.found ++ m.fresh <+: m.puts
    rw [taken]
    exact List.take_prefix _ _
  · have room := a.outstanding
    show m.published.length + m.staged.length ≤ (m.found ++ m.fresh).length + m.queue.vring.uSize
    omega
  · apply a.usedRing.later
    show m.found.length ≤ (m.found ++ m.fresh).length
    rw [length_append]
    exact Nat.le_add_right _ _

end Agrees

/-! ### Chains -/

/-- The chain that starts at a descriptor ends after at most `n` descriptors. -/
def chainEnds (m : Machine) : Nat → UInt16 → Bool
  | 0, _ => false
  | n + 1, idx =>
    let desc := m.vringReadDesc idx.toNat
    !desc.u16Flags.toNat.testBit VRINGDESC_F_NEXT || chainEnds m n desc.u16Next

/-- A chain that ends within what an element has room for is read to its end. -/
theorem exists_readChain {m : Machine} {n : Nat} {idx : UInt16} (ends : chainEnds m n idx = true)
    {steps : Nat} (enough : n ≤ steps) {elem : VQueueElem}
    (room : elem.aSegsIn.length + elem.aSegsOut.length + n ≤ VRING_MAX_SIZE) :
    ∃ result, m.readChain steps idx elem = some result ∧ result.uIndex = elem.uIndex := by
  induction n generalizing steps idx elem with
  | zero => cases ends
  | succ n ih =>
    obtain ⟨steps, rfl⟩ : ∃ k, steps = k + 1 := ⟨steps - 1, by omega⟩
    rw [chainEnds, Bool.or_eq_true, Bool.not_eq_true'] at ends
    rw [Machine.readChain]
    simp only
    cases inward : (m.vringReadDesc idx.toNat).u16Flags.toNat.testBit VRINGDESC_F_WRITE <;>
    · simp only [Bool.false_eq_true, if_false, if_true]
      rw [if_neg (by omega)]
      cases more : (m.vringReadDesc idx.toNat).u16Flags.toNat.testBit VRINGDESC_F_NEXT with
      | false => exact ⟨_, rfl, rfl⟩
      | true =>
        rw [more] at ends
        have rest := ends.resolve_left Bool.noConfusion
        rw [if_pos rfl]
        refine (ih rest (by omega) ?_).imp fun result read => ⟨read.1, read.2⟩
        simp only [length_append, List.length_singleton]
        omega

theorem readChain_uIndex {m : Machine} {steps : Nat} {idx : UInt16} {elem result : VQueueElem}
    (read : m.readChain steps idx elem = some result) : result.uIndex = elem.uIndex := by
  induction steps generalizing idx elem with
  | zero => cases read
  | succ steps ih =>
    rw [Machine.readChain] at read
    simp only at read
    cases inward : (m.vringReadDesc idx.toNat).u16Flags.toNat.testBit VRINGDESC_F_WRITE <;>
    · simp only [inward, Bool.false_eq_true, if_false, if_true] at read
      split at read
      · cases read
      · split at read
        · have same := ih read
          exact same
        · rw [← some.inj read]

/-! ### Runs -/

/-- The device puts an element only for a buffer it has removed. -/
def PutsRemoved (m : Machine) : Op → Prop
  | .put _ _ _ => m.puts.length < m.removed.length
  | _ => True

instance (m : Machine) (op : Op) : Decidable (PutsRemoved m op) := by
  cases op <;> unfold PutsRemoved <;> infer_instance

theorem Agrees.step {m m' : Machine} {op : Op} (a : Agrees m) (owed : PutsRemoved m op)
    (taken : step m op = some m') : Agrees m' := by
  cases op with
  | writeDesc i desc => exact some.inj taken ▸ { a with }
  | stage head =>
    rw [Virtio.step] at taken
    split at taken
    case isTrue room => exact some.inj taken ▸ a.stage room head
    case isFalse => cases taken
  | publish => exact some.inj taken ▸ a.publish
  | find => exact some.inj taken ▸ a.find
  | peek =>
    obtain ⟨⟨result, after⟩, got, rfl⟩ := map_eq_some_iff.mp taken
    exact a.get got
  | get =>
    obtain ⟨⟨result, after⟩, got, rfl⟩ := map_eq_some_iff.mp taken
    exact a.get got
  | skip => exact some.inj taken ▸ a.skip
  | put elem uLen uReserved => exact some.inj taken ▸ a.put owed elem uLen uReserved
  | sync => exact some.inj taken ▸ a.sync

/-- What a queue promises in a state. -/
structure Faithful (m : Machine) : Prop where
  /-- The heads removed are the first ones published. -/
  removed_prefix : m.removed <+: m.published
  /-- `vqueueGet` and `vqueueSkip` find the queue empty exactly when everything is consumed. -/
  get_false_iff : ∀ fRemove, m.vqueueGet fRemove = some (none, m) ↔ m.removed = m.published
  skip_false_iff : m.vqueueSkip.1 = false ↔ m.removed = m.published
  /-- Otherwise `vqueueGet` returns the next head, if the chain at it ends. -/
  get_head : ∀ (present : m.removed.length < m.published.length) (fRemove : Bool)
    (elem : VQueueElem) (m' : Machine), m.vqueueGet fRemove = some (some elem, m') →
      elem.uIndex = (m.published[m.removed.length]).toNat.toUInt32 ∧
        (fRemove = true → m'.removed = m.removed ++ [m.published[m.removed.length]])
  get_returns : ∀ (present : m.removed.length < m.published.length) (fRemove : Bool),
    chainEnds m VRING_MAX_SIZE m.published[m.removed.length] = true →
      ∃ elem m', m.vqueueGet fRemove = some (some elem, m')
  /-- After a `vqueueSync` the guest finds what it has not found yet of the elements put. -/
  sync_finds : m.vqueueSync.find.found = m.puts
  found_prefix : m.found <+: m.puts

theorem Agrees.faithful {m : Machine} (a : Agrees m) : Faithful m where
  removed_prefix := a.removed_prefix
  found_prefix := a.found_prefix
  get_false_iff := by
    intro fRemove
    rw [← a.isEmpty_iff, Machine.vqueueGet]
    cases empty : m.vqueueIsEmpty with
    | true => simp
    | false => simp
  skip_false_iff := by
    rw [← a.isEmpty_iff, Machine.vqueueSkip]
    cases empty : m.vqueueIsEmpty with
    | true => simp
    | false => simp
  get_head := by
    intro present fRemove elem m' got
    have nonempty : m.vqueueIsEmpty = false := by
      rw [Bool.eq_false_iff, ne_eq, a.isEmpty_iff]
      intro same
      exact present.ne (congrArg length same)
    rw [Machine.vqueueGet, nonempty, if_neg Bool.false_ne_true, map_eq_some_iff] at got
    obtain ⟨read, chain, same⟩ := got
    obtain ⟨sameElem, sameState⟩ := Prod.mk.inj same
    have head := a.readAvail present
    constructor
    · rw [← some.inj sameElem, readChain_uIndex chain, head]
    · intro removing
      rw [← sameState, removing, if_pos rfl, Machine.remove, head]
  get_returns := by
    intro present fRemove ends
    have nonempty : m.vqueueIsEmpty = false := by
      rw [Bool.eq_false_iff, ne_eq, a.isEmpty_iff]
      intro same
      exact present.ne (congrArg length same)
    have head := a.readAvail present
    -- Removing the head leaves the descriptors and the size of the ring alone.
    have same : ∀ n idx, chainEnds (if fRemove then m.remove else m) n idx = chainEnds m n idx := by
      intro n
      induction n with
      | zero => intro idx; rfl
      | succ n ih =>
        intro idx
        have desc : (if fRemove then m.remove else m).vringReadDesc idx.toNat =
            m.vringReadDesc idx.toNat := by cases fRemove <;> rfl
        rw [chainEnds, chainEnds, desc, ih]
    rw [Machine.vqueueGet, nonempty, if_neg Bool.false_ne_true, head]
    let start : VQueueElem :=
      { uIndex := (m.published[m.removed.length]).toNat.toUInt32, aSegsIn := [], aSegsOut := [] }
    have room : start.aSegsIn.length + start.aSegsOut.length + VRING_MAX_SIZE ≤ VRING_MAX_SIZE :=
      (by decide : 0 + 0 + 1024 ≤ 1024)
    obtain ⟨elem, read, -⟩ := exists_readChain ((same _ _).trans ends)
      (by decide : VRING_MAX_SIZE ≤ 2 * VRING_MAX_SIZE + 1) room
    refine ⟨elem, if fRemove then m.remove else m, ?_⟩
    show Option.map _ _ = _
    rw [read]
    rfl
  sync_finds := by
    have synced := a.sync
    show m.vqueueSync.found ++ m.vqueueSync.fresh = m.puts
    rw [synced.found_append_fresh a.found_prefix.length_le (Nat.le_refl _) a.nextUsed]
    exact List.take_length

/-- In every state of every run in which the device puts an element only for a buffer it has
removed, nothing is lost, repeated or out of order. -/
theorem virtio_run_faithful {uSize uPageNumber : Nat} {aDescs : Nat → VRingDesc}
    {auRing : Nat → UInt16} {aRing : Nat → VRingUsedElem} {ops : List Op} {m : Machine}
    (ring : RingSize uSize)
    (run : Run (Guarded PutsRemoved fun m op m' => step m op = some m')
      (Machine.initial uSize uPageNumber aDescs auRing aRing) ops m) : Faithful m :=
  (run.invariant Agrees (fun a taken => a.step taken.1 taken.2)
    (agrees_initial ring uPageNumber aDescs auRing aRing)).faithful

/-- An element without segments. -/
def emptyElem (uIndex : UInt32) : VQueueElem := { uIndex, aSegsIn := [], aSegsOut := [] }

/-- A descriptor without a successor. -/
def lastDesc : VRingDesc := { u64Addr := 0, uLen := 0, u16Flags := 0, u16Next := 0 }

/-- A queue of one place with zeros in its memory. -/
def onePlace : Machine :=
  Machine.initial 1 1 (fun _ => lastDesc) (fun _ => 0) (fun _ => { uId := 0, uLen := 0 })

/-- Two buffers through a ring of one place. -/
def twoBuffers : List Op :=
  [.stage 7, .publish, .peek, .get, .put (emptyElem 7) 1 0, .sync, .find,
    .stage 9, .publish, .skip, .put (emptyElem 9) 2 0]

theorem virtio_run_faithful_twoBuffers :
    ∃ m, Run (Guarded PutsRemoved fun m op m' => step m op = some m') onePlace twoBuffers m ∧
      Faithful m ∧ m.removed = [7, 9] := by
  obtain ⟨m, run, removed⟩ := Run.exists_of_follow PutsRemoved step onePlace twoBuffers
    (fun m => m.removed = [7, 9]) (by decide +kernel)
  exact ⟨m, run, virtio_run_faithful ⟨⟨0, rfl⟩, by decide⟩ run, removed⟩

/-- A device that puts elements nobody gave it overwrites the used ring: with one place the guest
finds the second of two elements twice and the first not at all. -/
theorem exists_run_overwritten :
    ¬ ∀ (uSize uPageNumber : Nat) (aDescs : Nat → VRingDesc) (auRing : Nat → UInt16)
      (aRing : Nat → VRingUsedElem) (ops : List Op) (m : Machine), RingSize uSize →
      Run (fun m op m' => step m op = some m')
        (Machine.initial uSize uPageNumber aDescs auRing aRing) ops m → Faithful m := by
  intro all
  obtain ⟨m, run, differs⟩ := Run.exists_of_follow (fun _ _ => True) step onePlace
    [.put (emptyElem 7) 1 0, .put (emptyElem 9) 2 0]
    (fun m => m.vqueueSync.find.found ≠ m.puts) (by decide +kernel)
  exact differs (all 1 1 _ _ _ _ m ⟨⟨0, rfl⟩, by decide⟩ (run.mono And.right)).sync_finds

end VBox.Devices.Virtio
