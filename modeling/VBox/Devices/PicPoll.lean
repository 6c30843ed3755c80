import VBox.Devices.PicRuns

/-!
Reads in poll mode.

A reset of a controller zeroes its index with everything else, and nothing sets the index again. A
poll-mode read finds the device from the index, so it is right for the master and for no slave.
-/

namespace VBox.Devices.Pic

open VBox.Lib Option

/-! ### Priorities -/

/-- The priority of a line, 0 the highest. -/
def PicState.rank (pic : PicState) (irq : Fin 8) : Nat := (irq.val + 8 - pic.priorityAdd % 8) % 8

theorem PicState.rank_lt (pic : PicState) (irq : Fin 8) : pic.rank irq < 8 :=
  Nat.mod_lt _ (by decide)

theorem PicState.lineOf_rank (pic : PicState) (irq : Fin 8) : pic.lineOf (pic.rank irq) = irq := by
  apply Fin.ext
  show ((irq.val + 8 - pic.priorityAdd % 8) % 8 + pic.priorityAdd) % 8 = irq.val
  omega

theorem PicState.rank_lineOf (pic : PicState) {priority : Nat} (small : priority < 8) :
    pic.rank (pic.lineOf priority) = priority := by
  show ((priority + pic.priorityAdd) % 8 + 8 - pic.priorityAdd % 8) % 8 = priority
  omega

/-- `get_priority` finds the line of the highest priority, or there is none. -/
theorem getPriority_spec (pic : PicState) (mask : BitVec 8) :
    (getPriority pic mask = 8 ∧ ∀ irq, line mask irq = false) ∨
      ∃ irq, line mask irq = true ∧ getPriority pic mask = pic.rank irq ∧
        ∀ other, line mask other = true → pic.rank irq ≤ pic.rank other := by
  unfold getPriority
  cases search : (List.range 8).find? fun priority => line mask (pic.lineOf priority) with
  | none =>
    refine .inl ⟨rfl, fun irq => ?_⟩
    have inside := List.mem_range.mpr (pic.rank_lt irq)
    have absent := List.find?_eq_none.mp search (pic.rank irq) inside
    rw [pic.lineOf_rank] at absent
    exact Bool.eq_false_iff.mpr absent
  | some priority =>
    obtain ⟨set, member, first⟩ := List.find?_range_eq_some.mp search
    have rank := pic.rank_lineOf (List.mem_range.mp member)
    refine .inr ⟨pic.lineOf priority, set, rank.symm, fun other present => ?_⟩
    rw [rank]
    apply Nat.le_of_not_lt
    intro before
    have absent := first (pic.rank other) before
    rw [pic.lineOf_rank, present] at absent
    cases absent

theorem getPriority_le (pic : PicState) {mask : BitVec 8} {irq : Fin 8}
    (present : line mask irq = true) : getPriority pic mask ≤ pic.rank irq := by
  rcases getPriority_spec pic mask with ⟨_, absent⟩ | ⟨_, _, found, least⟩
  · rw [absent irq] at present
    cases present
  · exact found ▸ least irq present

/-! ### What a poll should do -/

/-- What is in service, as far as it holds requests back: in special fully nested mode the master
does not count the slave's line. -/
def PicState.inService (pic : PicState) (which : Which) : BitVec 8 :=
  if pic.specialFullyNestedMode = true ∧ which = .master then clearLine pic.isr 2 else pic.isr

/-- A request is not masked, and nothing in service holds it back. -/
structure Deliverable (pic : PicState) (which : Which) (irq : Fin 8) : Prop where
  requested : line pic.irr irq = true
  unmasked : line pic.imr irq = false
  above : ∀ other, line (pic.inService which) other = true → pic.rank irq < pic.rank other

/-- The deliverable request of the highest priority. -/
structure Highest (pic : PicState) (which : Which) (irq : Fin 8) : Prop where
  deliverable : Deliverable pic which irq
  first : ∀ other, Deliverable pic which other → pic.rank irq ≤ pic.rank other

/-- Drop a request, in service or not. -/
def PicState.drop (pic : PicState) (irq : Fin 8) : PicState :=
  { pic with irr := clearLine pic.irr irq, isr := clearLine pic.isr irq }

/-- One request is acknowledged, a slave's with the master's line 2, and the poll is over. -/
def DevPic.acknowledge (p : DevPic) (which : Which) (irq : Fin 8) : DevPic :=
  match which with
  | .master => { p with master := { p.master.drop irq with poll := false } }
  | .slave => { p with
      master := p.master.drop 2
      slave := { p.slave.drop irq with poll := false } }

/-- Controllers that differ in line 2 of the master alone, with the flag that goes with it. -/
structure UpToIrq2 (p q : DevPic) : Prop where
  slave : q.slave = p.slave
  others : ∀ j ≠ 2, line q.master.irr j = line p.master.irr j ∧
    line q.master.lastIrr j = line p.master.lastIrr j
  master : q.master = { p.master with irr := q.master.irr, lastIrr := q.master.lastIrr }

/-- A poll-mode read of a controller finds its device and role, and acknowledges one request, or
none where none is deliverable. -/
structure PollsRight (p : DevPic) (which : Which) : Prop where
  index : (p.get which).idxPic = which.index
  read : ∀ addr, ∃ value q, picIoportRead p which addr = some (value, q) ∧
    ((∃ irq, Highest (p.get which) which irq ∧ value = irq.val ∧
        UpToIrq2 (p.acknowledge which irq) q) ∨
      (∀ irq, ¬ Deliverable (p.get which) which irq) ∧ value = 0 ∧
        UpToIrq2 (p.set which { p.get which with poll := false }) q)

/-! ### The pending interrupt is the highest -/

section Pending

variable {pic : PicState} {which : Which}

/-- `pic_get_irq` returns the deliverable request of the highest priority, as long as the index is
right. -/
theorem picGetIrq_spec (index : pic.idxPic = which.index) :
    (∃ irq, picGetIrq pic = some irq ∧ Highest pic which irq) ∨
      picGetIrq pic = none ∧ ∀ irq, ¬ Deliverable pic which irq := by
  have candidate : ∀ irq, line (pic.irr &&& ~~~pic.imr) irq = true ↔
      line pic.irr irq = true ∧ line pic.imr irq = false := by
    intro irq
    rw [line, BitVec.getLsbD_and, BitVec.getLsbD_not, decide_eq_true irq.isLt, Bool.true_and,
      Bool.and_eq_true, Bool.not_eq_true']
    rfl
  have role : (if pic.specialFullyNestedMode && pic.idxPic == 0 then clearLine pic.isr 2
      else pic.isr) = pic.inService which := by
    rw [PicState.inService, index]
    cases pic.specialFullyNestedMode <;> cases which <;> rfl
  unfold picGetIrq
  simp only [role]
  rcases getPriority_spec pic (pic.irr &&& ~~~pic.imr) with
    ⟨eight, absent⟩ | ⟨irq, set, rank, least⟩
  · refine .inr ⟨if_pos eight, fun irq deliverable => ?_⟩
    have present := (candidate irq).mpr ⟨deliverable.requested, deliverable.unmasked⟩
    rw [absent irq] at present
    cases present
  · rw [rank, if_neg (Nat.ne_of_lt (pic.rank_lt irq)), pic.lineOf_rank]
    have first : ∀ other, Deliverable pic which other → pic.rank irq ≤ pic.rank other :=
      fun other deliverable => least other
        ((candidate other).mpr ⟨deliverable.requested, deliverable.unmasked⟩)
    split
    case isTrue above =>
      refine .inl ⟨irq, rfl, ⟨⟨((candidate irq).mp set).1, ((candidate irq).mp set).2, ?_⟩, first⟩⟩
      exact fun other serving => Nat.lt_of_lt_of_le above (getPriority_le pic serving)
    case isFalse below =>
      refine .inr ⟨rfl, fun other deliverable => below ?_⟩
      rcases getPriority_spec pic (pic.inService which) with
        ⟨eight, _⟩ | ⟨served, serving, found, _⟩
      · rw [eight]
        exact pic.rank_lt irq
      · rw [found]
        exact Nat.lt_of_le_of_lt (first other deliverable) (deliverable.above served serving)

end Pending

/-! ### The index -/

/-- Both controllers hold the index of the master. -/
structure Unindexed (p : DevPic) : Prop where
  master : p.master.idxPic = 0
  slave : p.slave.idxPic = 0

section Index

variable {p q : DevPic} {which : Which}

theorem picSetIrq1_idxPic (pic : PicState) (irq : Fin 8) (level : Bool) :
    (picSetIrq1 pic irq level).idxPic = pic.idxPic := by
  unfold picSetIrq1
  split <;> split <;> rfl

theorem picIntack_idxPic (pic : PicState) (irq : Fin 8) :
    (picIntack pic irq).idxPic = pic.idxPic := by
  unfold picIntack
  cases pic.autoEoi <;> cases pic.rotateOnAutoEoi <;>
  · simp only [Bool.false_eq_true, if_false, if_true]
    split <;> rfl

namespace Unindexed

section

variable (u : Unindexed p)

include u

theorem get (which : Which) : (p.get which).idxPic = 0 := by
  cases which with
  | master => exact u.master
  | slave => exact u.slave

theorem set {pic : PicState} (zero : pic.idxPic = 0) : Unindexed (p.set which pic) := by
  cases which with
  | master => exact ⟨zero, u.slave⟩
  | slave => exact ⟨u.master, zero⟩

theorem update : Unindexed (update p) := by
  rw [update_eq]
  exact ⟨(picSetIrq1_idxPic _ _ _).trans u.master, u.slave⟩

theorem setIrq (iIrq : Fin 16) (iLevel : Nat) : Unindexed (picSetIrq p iIrq iLevel) := by
  have line : ∀ {p}, Unindexed p → ∀ which irq level,
      Unindexed (Pic.update (p.set which (picSetIrq1 (p.get which) irq level))) :=
    fun u which irq level => (u.set ((picSetIrq1_idxPic _ irq level).trans (u.get which))).update
  unfold picSetIrq
  simp only
  split
  · exact line (line u _ _ _) _ _ _
  · exact line u _ _ _

theorem getInterrupt : Unindexed (picGetInterrupt p).2 := by
  unfold picGetInterrupt
  split
  case h_2 => exact u.update
  case h_1 irq _ =>
    have master := (picIntack_idxPic p.master irq).trans u.master
    simp only
    split
    case isFalse => exact update ⟨master, u.slave⟩
    case isTrue =>
      split
      case h_1 irq2 _ => exact update ⟨master, (picIntack_idxPic p.slave irq2).trans u.slave⟩
      case h_2 => exact update ⟨master, u.slave⟩

theorem updateImr (val : BitVec 8) : Unindexed (picUpdateImr p which val) := by
  rcases picUpdateImr_cases p which val with ⟨flag, same⟩ | ⟨_, _, _, same⟩
  · rw [same]
    have masked : Unindexed (p.set which { p.get which with imr := val }) := u.set (u.get which)
    exact ⟨masked.master, masked.slave⟩
  · rw [same]
    exact ⟨u.master, u.slave⟩

theorem ocw2 (val : BitVec 8) : Unindexed (writeOcw2 p which val) := by
  unfold writeOcw2
  simp only
  split
  · exact u.set (u.get which)
  · exact u.set (u.get which)
  · split
    · exact u
    · exact update (u.set (u.get which))
  · split
    · exact u
    · exact update (u.set (u.get which))
  · exact update (u.set (u.get which))
  · exact update (u.set (u.get which))
  · exact update (u.set (u.get which))
  · exact u

/-- An initialisation zeroes the index, the other writes keep it. -/
theorem write (addr : Bool) (val : BitVec 8) : Unindexed (picIoportWrite p which addr val) := by
  unfold picIoportWrite
  simp only
  split
  · split
    · have blank : Unindexed (p.set which
          { picReset (p.get which) with initState := 1, init4 := val.getLsbD 0 }) := u.set rfl
      exact ⟨blank.master, blank.slave⟩
    · split
      · exact u.set (u.get which)
      · exact u.ocw2 val
  · split
    · exact (u.updateImr val).update
    · exact u.set (u.get which)
    · exact u.set (u.get which)
    · exact u.set (u.get which)
    · exact u

end

theorem pollRead {value : Nat} (u : Unindexed p) (taken : picPollRead p which = some (value, q)) :
    Unindexed q := by
  unfold picPollRead at taken
  split at taken
  case isTrue => cases taken
  case isFalse same =>
    split at taken
    case h_2 =>
      rw [← (Prod.mk.inj (some.inj taken)).2]
      exact u.update
    case h_1 irq _ =>
      cases which with
      | slave => exact absurd u.slave (not_not.mp same ▸ Nat.one_ne_zero)
      | master =>
        rw [← (Prod.mk.inj (some.inj taken)).2]
        split
        · exact update ⟨u.master, u.slave⟩
        · exact ⟨u.master, u.slave⟩

theorem read {value : Nat} {addr : Bool} (u : Unindexed p)
    (taken : picIoportRead p which addr = some (value, q)) : Unindexed q := by
  unfold picIoportRead at taken
  simp only at taken
  split at taken
  case isTrue =>
    obtain ⟨⟨ret, after⟩, polled, result⟩ := map_eq_some_iff.mp taken
    rw [← (Prod.mk.inj result).2]
    have after := u.pollRead polled
    exact after.set (after.get which)
  case isFalse =>
    split at taken <;>
    · rw [← (Prod.mk.inj (some.inj taken)).2]
      exact u

theorem step {op : Op} (u : Unindexed p) (taken : step p op = some q) : Unindexed q := by
  cases op with
  | setIrq iIrq iLevel => exact some.inj taken ▸ u.setIrq iIrq iLevel
  | getInterrupt => exact some.inj taken ▸ u.getInterrupt
  | write which addr val =>
    rw [Pic.step] at taken
    split at taken
    · cases taken
    · exact some.inj taken ▸ u.write addr val
  | read which addr =>
    obtain ⟨⟨value, after⟩, read, rfl⟩ := map_eq_some_iff.mp taken
    exact u.read read
  | writeElcr which val => exact some.inj taken ▸ u.set (u.get which)

end Unindexed

end Index

/-! ### Polls -/

theorem upToIrq2_refl (p : DevPic) : UpToIrq2 p p := ⟨rfl, fun _ _ => ⟨rfl, rfl⟩, rfl⟩

/-- Setting a line changes the requests and the level seen of this line alone. -/
theorem picSetIrq1_others (pic : PicState) (irq : Fin 8) (level : Bool) :
    (∀ j ≠ irq, line (picSetIrq1 pic irq level).irr j = line pic.irr j ∧
      line (picSetIrq1 pic irq level).lastIrr j = line pic.lastIrr j) ∧ picSetIrq1 pic irq level =
      { pic with
        irr := (picSetIrq1 pic irq level).irr
        lastIrr := (picSetIrq1 pic irq level).lastIrr } := by
  have kept : ∀ j ≠ irq, ∀ reg : BitVec 8, line (setLine reg irq) j = line reg j ∧
      line (clearLine reg irq) j = line reg j := fun j other reg => by
    rw [line_setLine, line_clearLine, decide_eq_false other, Bool.or_false, Bool.not_false,
      Bool.and_true]
    exact ⟨rfl, rfl⟩
  unfold picSetIrq1
  refine ⟨fun j other => ?_, ?_⟩
  · split <;> split
    · exact ⟨(kept j other _).1, (kept j other _).1⟩
    · exact ⟨(kept j other _).2, (kept j other _).2⟩
    · refine ⟨?_, (kept j other _).1⟩
      simp only
      split
      · rfl
      · exact (kept j other _).1
    · exact ⟨(kept j other _).2, (kept j other _).2⟩
  · split <;> split <;> rfl

theorem upToIrq2_update (p : DevPic) : UpToIrq2 p (update p) := by
  rw [update_eq]
  obtain ⟨others, rest⟩ := picSetIrq1_others p.master 2 (picGetIrq p.slave).isSome
  exact ⟨rfl, others, rest⟩

/-- The end of the poll is not seen by the update. -/
theorem UpToIrq2.endPoll {p q : DevPic} (same : UpToIrq2 p q) :
    UpToIrq2 { p with master := { p.master with poll := false } }
      (q.set .master { q.get .master with poll := false }) where
  slave := same.slave
  others := same.others
  master := congrArg (fun pic : PicState => { pic with poll := false }) same.master

/-- With the index of the master the master polls right. -/
theorem pollsRight_master {p : DevPic} (u : Unindexed p) (poll : p.master.poll = true) :
    PollsRight p .master := by
  have index : (p.get .master).idxPic = Which.master.index := u.master
  refine ⟨index, fun addr => ?_⟩
  have polled : (p.get .master).poll = true := poll
  unfold picIoportRead
  simp only
  rw [if_pos polled, picPollRead, if_neg (not_not.mpr index)]
  rcases picGetIrq_spec index with ⟨irq, pending, highest⟩ | ⟨silent, none⟩
  · rw [pending]
    refine ⟨_, _, rfl, .inl ⟨irq, highest, rfl, ?_⟩⟩
    split
    · exact (upToIrq2_update (p.set .master (p.master.drop irq))).endPoll
    · exact (upToIrq2_refl (p.set .master (p.master.drop irq))).endPoll
  · rw [silent]
    exact ⟨_, _, rfl, .inr ⟨none, rfl, (upToIrq2_update p).endPoll⟩⟩

/-- Of the two controllers the master alone polls right, in every state that can be reached. -/
theorem pic_poll_right_iff {elcr elcr' : BitVec 8} {ops : List Op} {p : DevPic} {which : Which}
    (run : Run (fun p op q => step p op = some q) (reset elcr elcr') ops p)
    (poll : (p.get which).poll = true) : PollsRight p which ↔ which = .master := by
  have u := run.invariant Unindexed (fun u taken => u.step taken) ⟨rfl, rfl⟩
  constructor
  · intro right
    cases which with
    | master => rfl
    | slave => exact absurd right.index (u.slave ▸ Nat.zero_ne_one)
  · rintro rfl
    exact pollsRight_master u poll

/-- Line 3 of the master is requested, and the master polled. -/
theorem pic_poll_right_iff_lineThree : ∃ p,
    Run (fun p op q => step p op = some q) (reset 0 0) [.setIrq 3 1, .write .master false 0x0c] p ∧
      PollsRight p .master ∧ (picIoportRead p .master false).map Prod.fst = some 3 := by
  obtain ⟨p, run, poll, three⟩ := Run.exists_of_follow (fun _ _ => True) step (reset 0 0)
    [.setIrq 3 1, .write .master false 0x0c]
    (fun p => (p.get .master).poll = true ∧ (picIoportRead p .master false).map Prod.fst = some 3)
    (by decide +kernel)
  have run := run.mono And.right
  exact ⟨p, run, (pic_poll_right_iff run poll).mpr rfl, three⟩

/-- Line 8 is requested and the slave polled: its index is that of the master. -/
theorem exists_poll_wrong :
    ¬ ∀ (elcr elcr' : BitVec 8) (ops : List Op) (p : DevPic) (which : Which),
      Run (fun p op q => step p op = some q) (reset elcr elcr') ops p →
        (p.get which).poll = true → PollsRight p which := by
  intro all
  obtain ⟨p, run, poll, zero⟩ := Run.exists_of_follow (fun _ _ => True) step (reset 0 0)
    [.setIrq 8 1, .write .slave false 0x0c]
    (fun p => (p.get .slave).poll = true ∧ (p.get .slave).idxPic = 0) (by decide +kernel)
  have right := all 0 0 _ p .slave (run.mono And.right) poll
  rw [right.index] at zero
  cases zero

end VBox.Devices.Pic
