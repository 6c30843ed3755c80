import VBox.Lib.Run
import VBox.Net.IntNetRingSteps

/-!
The ring buffer as a lossless FIFO, in every run of its reader and writers.

Two things break it. A frame that ends exactly at the end of the buffer while the reader is
at the start makes a full ring look empty, and a commit that leaves less than a unit of the
frame unused hands the unused bytes to the reader.
-/

namespace VBox.Net

open VBox.Lib List

/-! ### What holds of a ring -/

/-- The bytes of a frame and its header. -/
def IntNetRingBuf.Region (r : IntNetRingBuf) (pHdr i : Nat) : Prop :=
  pHdr ≤ i ∧ i < pHdr + cbHdr ∨ framePtr r.mem pHdr ≤ i ∧
    i < framePtr r.mem pHdr + align32 (hdrAt r.mem pHdr).cbFrame

/-- The headers of the unread frames, as the reader gets to them. -/
def IntNetRingBuf.Unread (r : IntNetRingBuf) : Nat → List Nat → Prop
  | off, [] => off = r.offWriteCom
  | off, pHdr :: rest =>
      off = pHdr ∧ off ≠ r.offWriteCom ∧ r.Unread { r with offReadX := off }.skipFrame rest

structure RingMachine.Lossless (m : RingMachine) : Prop where
  fifo : m.delivered <+: m.committed
  empty : m.ring.offReadX = m.ring.offWriteCom → m.delivered = m.committed
  apart : ∃ unread, m.ring.Unread m.ring.offReadX unread ∧
    (∀ pHdr ∈ unread ++ m.allocated, ∀ i, m.ring.Region pHdr i →
      m.ring.offStart ≤ i ∧ i < m.ring.offEnd) ∧
    (unread ++ m.allocated).Pairwise fun a b => ∀ i, ¬ (m.ring.Region a i ∧ m.ring.Region b i)

/-- The frame fits the 24 bits of its header, it does not fill the ring up to its end while
the reader is at its start, and a commit leaves a whole unit unused or nothing. -/
def Unmistakable (m : RingMachine) : RingLabel → Prop
  | .request request => request.total < 2 ^ 24
  | .writer => ¬ m.FillsUp
  | .commitEx cbUsed => ∀ pHdr ∈ m.allocated.head?,
      align32 (m.ring.used pHdr cbUsed) = align32 (hdrAt m.ring.mem pHdr).cbFrame →
        m.ring.used pHdr cbUsed = (hdrAt m.ring.mem pHdr).cbFrame
  | _ => True

instance (m : RingMachine) : Decidable m.FillsUp := by
  unfold RingMachine.FillsUp
  split <;> infer_instance

instance (m : RingMachine) : DecidablePred (Unmistakable m)
  | .request _ => inferInstanceAs (Decidable (_ < _))
  | .writer => inferInstanceAs (Decidable (¬ _))
  | .commitEx _ => inferInstanceAs (Decidable (∀ pHdr ∈ m.allocated.head?, _ → _))
  | .fill .. => inferInstanceAs (Decidable True)
  | .commit => inferInstanceAs (Decidable True)
  | .reader => inferInstanceAs (Decidable True)

namespace RingMachine.Layout

variable {m m' : RingMachine} {start size R C W : Nat} {unread alloc : List Item} {it : Item}

/-- The region of a frame is made of places of the positions it takes up. -/
theorem region (lay : m.Layout start size R C W unread alloc) (member : it ∈ unread ++ alloc)
    {i : Nat} (inside : m.ring.Region (phys start size it.pos) i) :
    ∃ x, it.pos ≤ x ∧ x < it.stop size ∧ i = phys start size x := by
  obtain ⟨fits, -, -⟩ := lay.whole.inside lay.shape member
  have headed := lay.headed it member
  have first := fits.header lay.shape
  have stop : it.stop size = it.dataPos size + it.cb := rfl
  have eight : cbHdr = 8 := rfl
  have cb : align32 (hdrAt m.ring.mem (phys start size it.pos)).cbFrame = it.cb := by
    rw [show hdrAt m.ring.mem (phys start size it.pos) = _ from headed]
    rfl
  rw [IntNetRingBuf.Region, headed.framePtr lay.shape fits, cb] at inside
  rcases inside with ⟨low, high⟩ | ⟨low, high⟩
  · obtain ⟨j, rfl⟩ := Nat.exists_eq_add_of_le low
    exact ⟨it.pos + j, by omega, by omega, fits.header_phys lay.shape (by omega)⟩
  · obtain ⟨j, rfl⟩ := Nat.exists_eq_add_of_le low
    exact ⟨it.dataPos size + j, by omega, by omega, fits.data_phys (by omega)⟩

theorem unread_walk (lay : m.Layout start size R C W unread alloc) {p : Nat} {items : List Item}
    (chain : Chain size p items C) (low : R ≤ p) (part : ∀ it ∈ items, it ∈ unread) :
    m.ring.Unread (phys start size p) (items.map fun it => phys start size it.pos) := by
  induction items generalizing p with
  | nil =>
    rw [show p = C from chain]
    exact lay.offWriteCom.symm
  | cons it items ih =>
    obtain ⟨rfl, fits, rest⟩ := chain
    have headed := lay.headed it (mem_append_left _ (part it mem_cons_self))
    have header := fits.header lay.shape
    have stop : it.stop size = it.dataPos size + it.cb := rfl
    have behind := rest.le lay.shape
    have order := lay.order
    have near := lay.near
    refine ⟨rfl, ?_, ?_⟩
    · rw [lay.offWriteCom]
      intro same
      have caught := phys_inj (by omega) (by omega) same
      omega
    · have next := (headed.next lay.shape fits
        (r := { m.ring with offReadX := phys start size it.pos }) lay.offStart lay.offEnd rfl).2 rfl
      rw [next]
      exact ih rest (by omega) fun it' member => part it' (mem_cons_of_mem _ member)

theorem lossless (lay : m.Layout start size R C W unread alloc) : m.Lossless := by
  have headers : (unread.map fun it => phys start size it.pos) ++ m.allocated =
      (unread ++ alloc).map fun it => phys start size it.pos := by
    rw [map_append, lay.allocated]
  constructor
  · rw [lay.committed]
    exact prefix_append _ _
  · intro caught
    have none := lay.empty_iff.mp caught
    subst none
    have nothing : m.reader.left [] = [] := by
      cases m.reader <;> rfl
    rw [lay.committed, nothing]
    exact (append_nil _).symm
  · refine ⟨unread.map fun it => phys start size it.pos, ?_, ?_, ?_⟩
    · rw [lay.offReadX]
      exact lay.unread_walk lay.readable (Nat.le_refl R) fun _ member => member
    · rw [headers]
      intro pHdr member i inside
      obtain ⟨it, among, rfl⟩ := mem_map.mp member
      obtain ⟨x, -, -, rfl⟩ := lay.region among inside
      rw [lay.offStart, lay.offEnd]
      exact ⟨Nat.le_add_right _ _, phys_lt lay.shape x⟩
    · rw [headers, pairwise_map]
      refine (lay.whole.pairwise lay.shape).imp_of_mem ?_
      rintro a b first second apart i ⟨inside, inside'⟩
      obtain ⟨x, low, high, rfl⟩ := lay.region first inside
      obtain ⟨y, low', high', same⟩ := lay.region second inside'
      obtain ⟨-, bottom, -⟩ := lay.whole.inside lay.shape first
      obtain ⟨-, -, top⟩ := lay.whole.inside lay.shape second
      have near := lay.near
      have equal := phys_inj (by omega) (by omega) same
      omega

/-! ### Runs -/

theorem idleStep {label : RingLabel} (lay : m.Layout start size R C W unread alloc)
    (clear : Unmistakable m label) (idle : m.writer = .idle) (step : m.idleStep label = some m') :
    ∃ R C W unread alloc, m'.Layout start size R C W unread alloc := by
  cases label with
  | request request =>
    simp only [RingMachine.idleStep] at step
    split at step
    case isFalse => cases step
    case isTrue may =>
      cases step
      have alone : request.Alone alloc := by
        cases request with
        | allocateFrame cbFrame => trivial
        | allocateGsoFrame cbFrame pGso => trivial
        | writeFrame pvFrame cbFrame =>
          have none : m.allocated = [] := may
          rw [lay.allocated] at none
          exact map_eq_nil_iff.mp none
      exact ⟨R, C, W, unread, alloc, { lay with writer := ⟨clear, alone, lay.offWriteInt⟩ }⟩
  | fill k off n data =>
    simp only [RingMachine.idleStep] at step
    split at step
    case h_1 => cases step
    case h_2 pHdr found =>
      split at step
      case isFalse => cases step
      case isTrue inside =>
        cases step
        exact ⟨R, C, W, unread, alloc, lay.fill idle found inside⟩
  | commit =>
    simp only [RingMachine.idleStep] at step
    split at step
    case h_1 => cases step
    case h_2 pHdr rest allocated =>
      cases step
      obtain ⟨C', unread', alloc', lay'⟩ := lay.commitFrame idle allocated
      exact ⟨R, C', W, unread', alloc', lay'⟩
  | commitEx cbUsed =>
    simp only [RingMachine.idleStep] at step
    split at step
    case h_1 => cases step
    case h_2 pHdr rest allocated =>
      split at step
      case isFalse => cases step
      case isTrue inside =>
        cases step
        rw [Unmistakable, allocated] at clear
        obtain ⟨C', unread', alloc', lay'⟩ :=
          lay.commitFrameEx idle allocated inside (clear pHdr rfl)
        exact ⟨R, C', W, unread', alloc', lay'⟩
  | writer => cases step
  | reader => cases step

/-- A call is made by an idle writer. -/
theorem idle_of_call {label : RingLabel} (reader : label ≠ .reader) (writer : label ≠ .writer)
    (step : RingStep m label m') : m.writer = .idle ∧ m.idleStep label = some m' := by
  unfold RingStep RingMachine.step at step
  split at step
  · exact absurd rfl reader
  · exact absurd rfl writer
  · split at step
    · rename_i idle
      exact ⟨idle, step⟩
    · cases step

theorem step {label : RingLabel} (lay : m.Layout start size R C W unread alloc)
    (clear : Unmistakable m label) (step : RingStep m label m') :
    ∃ R C W unread alloc, m'.Layout start size R C W unread alloc := by
  have calls (reader : label ≠ .reader) (writer : label ≠ .writer) :
      ∃ R C W unread alloc, m'.Layout start size R C W unread alloc := by
    obtain ⟨idle, taken⟩ := idle_of_call reader writer step
    exact lay.idleStep clear idle taken
  cases label with
  | reader =>
    cases step
    obtain ⟨R', unread', lay'⟩ := lay.readerStep
    exact ⟨R', C, W, unread', alloc, lay'⟩
  | writer =>
    obtain ⟨C', W', unread', alloc', lay'⟩ := lay.writerStep clear step
    exact ⟨R, C', W', unread', alloc', lay'⟩
  | request request => exact calls RingLabel.noConfusion RingLabel.noConfusion
  | fill k off n data => exact calls RingLabel.noConfusion RingLabel.noConfusion
  | commit => exact calls RingLabel.noConfusion RingLabel.noConfusion
  | commitEx cbUsed => exact calls RingLabel.noConfusion RingLabel.noConfusion

end RingMachine.Layout

variable {offStart offEnd : Nat} {mem : Buf} {labels : List RingLabel} {m : RingMachine}

theorem RingMachine.init_layout (first : 8 ∣ offStart) (last : 8 ∣ offEnd)
    (some : offStart < offEnd) (small : offEnd < 2 ^ 32) :
    (RingMachine.init offStart offEnd mem).Layout offStart (offEnd - offStart) 0 0 0 [] [] := by
  have shape : Shape offStart (offEnd - offStart) :=
    ⟨first, Nat.dvd_sub last first, Nat.sub_pos_of_lt some, by omega⟩
  have zero : phys offStart (offEnd - offStart) 0 = offStart := by
    rw [phys, Nat.zero_mod, Nat.add_zero]
  constructor
  · exact shape
  · rfl
  · exact (Nat.add_sub_cancel' (Nat.le_of_lt some)).symm
  · exact zero.symm
  · exact zero.symm
  · exact zero.symm
  · exact Nat.dvd_zero 8
  · exact Nat.lt_of_lt_of_le shape.pos (Nat.le_add_left _ _)
  · rfl
  · rfl
  · intro it member
    cases member
  · intro it member
    cases member
  · rfl
  · rfl
  · trivial
  · trivial

/-- The ring loses, repeats, reorders and overwrites nothing. -/
theorem run_lossless (first : 8 ∣ offStart) (last : 8 ∣ offEnd) (some : offStart < offEnd)
    (small : offEnd < 2 ^ 32)
    (run : Run (Guarded Unmistakable RingStep) (.init offStart offEnd mem) labels m) :
    m.Lossless := by
  have holds := run.invariant (fun m => ∃ R C W unread alloc,
    m.Layout offStart (offEnd - offStart) R C W unread alloc)
    (fun ⟨_, _, _, _, _, lay⟩ step => lay.step step.1 step.2)
    ⟨0, 0, 0, [], [], RingMachine.init_layout first last some small⟩
  obtain ⟨R, C, W, unread, alloc, lay⟩ := holds
  exact lay.lossless

/-- A call of `IntNetRingWriteFrame`. -/
def writeFrameLabels (pvFrame : Buf) (cbFrame : Nat) : List RingLabel :=
  [.request (.writeFrame pvFrame cbFrame), .writer, .writer, .writer]

/-- Two frames through a small ring, the second one with its data at the start. -/
theorem run_lossless_two : ∃ m, Run (Guarded Unmistakable RingStep) (.init 64 128 fun _ => 0)
    (writeFrameLabels (fun _ => 1) 32 ++ replicate 3 .reader ++
      writeFrameLabels (fun _ => 2) 20 ++ replicate 3 .reader) m ∧
    m.delivered = [⟨typeFrame, replicate 32 1⟩, ⟨typeFrame, replicate 20 2⟩] ∧
    m.Lossless := by
  obtain ⟨m, run, delivered⟩ := Run.exists_of_follow Unmistakable RingMachine.step
    (.init 64 128 fun _ => 0) (writeFrameLabels (fun _ => 1) 32 ++ replicate 3 .reader ++
      writeFrameLabels (fun _ => 2) 20 ++ replicate 3 .reader)
    (fun m => m.delivered = [⟨typeFrame, replicate 32 1⟩, ⟨typeFrame, replicate 20 2⟩])
    (by decide +kernel)
  exact ⟨m, run, delivered, run_lossless (by decide) (by decide) (by decide) (by decide) run⟩

/-- A frame that fills an empty ring of 32 bytes is lost. Of a frame of 24 bytes that is
committed with 20 bytes used, the reader gets all 24. -/
theorem ring_loses :
    (∃ m, Run RingStep (.init 64 96 fun _ => 0) (writeFrameLabels (fun _ => 1) 24) m ∧
      m.ring.offReadX = m.ring.offWriteCom ∧ m.committed = [⟨typeFrame, replicate 24 1⟩] ∧
      m.delivered = [] ∧ ¬ m.Lossless) ∧
    ∃ m, Run RingStep (.init 64 128 fun _ => 0)
        ([.request (.allocateFrame 24), .writer, .writer, .commitEx 20] ++
          replicate 3 .reader) m ∧
      m.committed = [⟨typeFrame, replicate 20 0⟩] ∧
      m.delivered = [⟨typeFrame, replicate 24 0⟩] ∧ ¬ m.Lossless := by
  obtain ⟨m, run, caught, committed, delivered⟩ := Run.exists_of_follow (fun _ _ => True)
    RingMachine.step (.init 64 96 fun _ => 0) (writeFrameLabels (fun _ => 1) 24)
    (fun m => m.ring.offReadX = m.ring.offWriteCom ∧
      m.committed = [⟨typeFrame, replicate 24 1⟩] ∧ m.delivered = []) (by decide +kernel)
  obtain ⟨m', run', committed', delivered'⟩ := Run.exists_of_follow (fun _ _ => True)
    RingMachine.step (.init 64 128 fun _ => 0)
    ([.request (.allocateFrame 24), .writer, .writer, .commitEx 20] ++ replicate 3 .reader)
    (fun m => m.committed = [⟨typeFrame, replicate 20 0⟩] ∧
      m.delivered = [⟨typeFrame, replicate 24 0⟩]) (by decide +kernel)
  refine ⟨⟨m, run.mono fun step => step.2, caught, committed, delivered, fun lossless => ?_⟩,
    ⟨m', run'.mono fun step => step.2, committed', delivered', fun lossless => ?_⟩⟩
  · have all := lossless.empty caught
    rw [committed, delivered] at all
    cases all
  · have before := lossless.fifo
    rw [committed', delivered'] at before
    revert before
    decide

end VBox.Net
