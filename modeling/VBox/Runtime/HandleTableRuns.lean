import VBox.Lib.Run
import VBox.Runtime.HandleTableSteps

/-!
Runs of threads on a handle table.

What the calls have returned tells which handles are live. Over every run this agrees with the
entries in use, so no handle is given out twice and a freed one is not found again.
-/

namespace VBox.Runtime.HandleTable

open List
open VBox.Lib (Run Queue)

/-- What a handle was last returned for, unless it was freed since. -/
def liveIn : List Event → UInt32 → Option Entry
  | [], _ => none
  | .returned h' entry :: past, h => if h = h' then some entry else liveIn past h
  | .freed h' :: past, h => if h = h' then none else liveIn past h
  | .noMoreHandles :: past, h => liveIn past h

/-- A handle is returned only if it is not live and freed only if it is; the table is out of
handles only if all are live. -/
def Proper (table : Table) : List Event → Prop
  | [] => True
  | .returned h _ :: past => liveIn past h = none ∧ Proper table past
  | .freed h :: past => liveIn past h ≠ none ∧ Proper table past
  | .noMoreHandles :: past =>
    (∀ i < table.cMax, liveIn past (table.handle i) ≠ none) ∧ Proper table past

/-- What a call finds under a handle. -/
def found (fContext : Bool) (live : Option Entry) (pvCtx : Nat) (fRetained : Bool) : Nat :=
  match live with
  | some entry => if (!fContext || entry.pvCtx == pvCtx) && fRetained then entry.pvObj else 0
  | none => 0

/-- The object a thread is about to store. -/
def Pc.pvObj : Pc → Option Nat
  | .idle => none
  | .expanding pvObj _ _ => some pvObj
  | .allocated pvObj _ _ => some pvObj
  | .replaced pvObj _ => some pvObj
  | .raced pvObj _ => some pvObj

/-- What holds whenever the lock is free. -/
structure Inv (table : Table) (s : State) : Prop where
  sound : ∃ free, s.table.Sound free
  kind : table.SameKind s.table
  live : ∀ h, liveIn s.events h = s.table.used (s.table.index h)
  proper : Proper table s.events
  objects : ∀ thread pvObj, (s.pc thread).pvObj = some pvObj → isFree pvObj = false

def State.start (table : Table) : State := ⟨table, fun _ => .idle, []⟩

theorem Table.SameKind.trans {table table' table'' : Table} (first : table.SameKind table')
    (second : table'.SameKind table'') : table.SameKind table'' :=
  ⟨second.fContext.trans first.fContext, second.uBase.trans first.uBase,
    second.cMax.trans first.cMax⟩

theorem Table.SameKind.index {table table' : Table} (same : table.SameKind table') (h : UInt32) :
    table'.index h = table.index h := by
  unfold Table.index
  rw [same.uBase]

theorem Table.SameKind.handle {table table' : Table} (same : table.SameKind table') (i : Nat) :
    table'.handle i = table.handle i := by
  unfold Table.handle
  rw [same.uBase]

/-- The handle of an index is the only one to have it. -/
theorem Table.Sound.index_iff {table : Table} {free : List Nat} (sound : table.Sound free) {i : Nat}
    (below : i < table.cCur) (h : UInt32) : table.index h = i ↔ h = table.handle i :=
  Table.index_eq_iff sound.base (Nat.lt_of_lt_of_le below (sound.cCur_le.trans (by decide)))

namespace Inv

variable {table : Table} {s t : State} {thread pvObj pvCtx : Nat}

/-- A thread goes on with an object that may be stored, or with none. -/
theorem setPc {pc : Pc} (inv : Inv table s)
    (object : ∀ pvObj, pc.pvObj = some pvObj → isFree pvObj = false) :
    Inv table (s.setPc thread pc) := by
  refine ⟨inv.sound, inv.kind, inv.live, inv.proper, ?_⟩
  intro other pvObj stored
  by_cases same : other = thread
  · subst same
    simp only [State.setPc, Function.update_self] at stored
    exact object pvObj stored
  · simp only [State.setPc, Function.update_of_ne same] at stored
    exact inv.objects other pvObj stored

/-- A table with the same entries in use. -/
theorem withTable {table' : Table} (inv : Inv table s) (sound : ∃ free, table'.Sound free)
    (same : s.table.SameKind table') (used : ∀ j, table'.used j = s.table.used j) :
    Inv table { s with table := table' } := by
  refine ⟨sound, inv.kind.trans same, ?_, inv.proper, inv.objects⟩
  intro h
  rw [inv.live, same.index, used]

theorem allocLoop (inv : Inv table s) (object : isFree pvObj = false) :
    Inv table (s.allocLoop thread pvObj pvCtx) := by
  obtain ⟨free, sound⟩ := inv.sound
  unfold State.allocLoop
  rcases sound.attempt_cases pvObj pvCtx with ⟨i, rest, rfl, taken⟩ | ⟨rfl, full, failed⟩ |
    ⟨cLevel1, expand⟩
  · rw [taken]
    obtain ⟨sound', same, used⟩ := sound.take object
    have below : i < s.table.cCur := sound.lt_of_mem mem_cons_self
    refine Inv.setPc ⟨⟨rest, sound'⟩, inv.kind.trans same, ?_, ⟨?_, inv.proper⟩, inv.objects⟩
      fun _ none => by cases none
    · intro h
      rw [liveIn, same.index, used, inv.live]
      simp only [sound.index_iff below]
    · rw [inv.live, (sound.index_iff below _).mpr rfl]
      exact sound.used_of_mem mem_cons_self
  · rw [failed]
    refine Inv.setPc ⟨⟨[], sound⟩, inv.kind, inv.live, ⟨?_, inv.proper⟩, inv.objects⟩
      fun _ none => by cases none
    intro i bound
    rw [← inv.kind.cMax] at bound
    have below : i < s.table.cCur := Nat.lt_of_lt_of_le bound full
    rw [← inv.kind.handle, inv.live, (sound.index_iff below _).mpr rfl]
    intro none
    exact absurd (sound.used_eq_none_iff.mp none below) not_mem_nil
  · rw [expand]
    refine Inv.setPc inv ?_
    rintro _ ⟨⟩
    exact object

theorem expandLoop (inv : Inv table s) (object : isFree pvObj = false) :
    Inv table (s.expandLoop thread pvObj pvCtx) := by
  obtain ⟨free, sound⟩ := inv.sound
  unfold State.expandLoop
  split
  case h_1 table' done =>
    obtain ⟨sound', same, used⟩ := sound.insertTable done
    exact (inv.withTable ⟨_, sound'⟩ same used).allocLoop object
  case h_2 =>
    refine inv.setPc ?_
    rintro _ ⟨⟩
    exact object

/-- Freeing: either nothing was found, or exactly the handle is given up. -/
theorem free (inv : Inv table s) (h : UInt32) (fRetained : Bool)
    (taken : s.next (.free h pvCtx fRetained) = some t) : Inv table t := by
  obtain ⟨free, sound⟩ := inv.sound
  rw [State.next] at taken
  by_cases success : s.table.retained h pvCtx fRetained ≠ 0
  · have freed : s.table.free h pvCtx fRetained = (s.table.retained h pvCtx fRetained, _) :=
      if_pos success
    rw [freed] at taken
    simp only [if_pos success, Option.some.injEq] at taken
    subst taken
    obtain ⟨entry, used⟩ : ∃ entry, s.table.used (s.table.index h) = some entry := by
      rw [sound.retained_eq] at success
      split at success
      case h_1 entry known => exact ⟨entry, known⟩
      case h_2 => exact absurd rfl success
    obtain ⟨below, inUse⟩ : s.table.index h < s.table.cCur ∧
        isFree (s.table.entry (s.table.index h)).pvObj = false := by
      by_contra neither
      rw [Table.used, if_neg neither] at used
      cases used
    obtain ⟨sound', same, used'⟩ := sound.pushFree below inUse
    refine ⟨⟨_, sound'⟩, inv.kind.trans same, ?_, ⟨?_, inv.proper⟩, inv.objects⟩
    · intro h'
      have handles : s.table.index h' = s.table.index h ↔ h' = h := by
        rw [sound.index_iff below, ← (sound.index_iff below h).mp rfl]
      rw [liveIn, same.index, used', inv.live]
      simp only [handles]
    · rw [inv.live, used]
      exact Option.some_ne_none entry
  · have kept : s.table.free h pvCtx fRetained = (s.table.retained h pvCtx fRetained, s.table) :=
      if_neg success
    rw [kept] at taken
    simp only [if_neg success, Option.some.injEq] at taken
    subst taken
    exact inv

/-- Every step keeps the invariant. -/
theorem next {label : Label} (inv : Inv table s) (taken : s.next label = some t) : Inv table t := by
  cases label with
  | alloc thread pvObj pvCtx =>
    rw [State.next] at taken
    split at taken
    case h_2 => cases taken
    case h_1 =>
      split at taken
      case isTrue =>
        cases taken
        exact inv
      case isFalse object =>
        cases taken
        exact inv.allocLoop ((Bool.not_eq_true _).mp object)
  | memory thread fAllocated =>
    rw [State.next] at taken
    split at taken
    case h_2 => cases taken
    case h_1 pvObj pvCtx cLevel1 here =>
      cases taken
      refine inv.setPc fun stored known => inv.objects thread stored ?_
      rw [here]
      cases fAllocated with
      | true => exact known
      | false => cases known
  | lock thread =>
    have objects := inv.objects thread
    rw [State.next] at taken
    split at taken
    case h_1 pvObj pvCtx cLevel1 here =>
      have object : isFree pvObj = false := objects pvObj (by rw [here]; rfl)
      split at taken
      case isTrue =>
        cases taken
        obtain ⟨free, sound⟩ := inv.sound
        obtain ⟨sound', same, used⟩ := @Table.Sound.growLevel1 s.table free cLevel1 sound
        refine (inv.withTable ⟨free, sound'⟩ same used).setPc ?_
        rintro _ ⟨⟩
        exact object
      case isFalse =>
        cases taken
        exact inv.expandLoop object
    case h_2 pvObj pvCtx here =>
      cases taken
      exact inv.expandLoop (objects pvObj (by rw [here]; rfl))
    case h_3 pvObj pvCtx here =>
      cases taken
      exact inv.allocLoop (objects pvObj (by rw [here]; rfl))
    case h_4 => cases taken
  | free h pvCtx fRetained => exact inv.free h fRetained taken

/-- What Lookup and Free return. -/
theorem retained_eq (inv : Inv table s) (h : UInt32) (pvCtx : Nat) (fRetained : Bool) :
    s.table.retained h pvCtx fRetained =
      found table.fContext (liveIn s.events h) pvCtx fRetained := by
  obtain ⟨free, sound⟩ := inv.sound
  rw [sound.retained_eq, inv.live, inv.kind.fContext]
  rfl

end Inv

theorem inv_start {fContext : Bool} {uBase cMax : Nat} {table : Table}
    (created : createEx fContext uBase cMax = some table) : Inv table (.start table) := by
  obtain ⟨sound, -, unused⟩ := sound_createEx created
  refine ⟨⟨[], sound⟩, ⟨rfl, rfl, rfl⟩, fun h => (unused _).symm, trivial, ?_⟩
  intro thread pvObj stored
  cases stored

/-- The entries that are not on the free list are those allocated. -/
theorem Table.Sound.inUse {table : Table} {free : List Nat} (sound : table.Sound free) :
    ((range table.cCur).filter fun i => !isFree (table.entry i).pvObj).length =
      table.cCurAllocated := by
  have listed : ((range table.cCur).filter fun i => isFree (table.entry i).pvObj).Perm free := by
    apply (perm_ext_iff_of_nodup (nodup_range.filter _) sound.queue.nodup).mpr
    intro i
    rw [mem_filter, mem_range, sound.mem]
  have parts := @length_eq_length_filter_add _ (range table.cCur)
    fun i => isFree (table.entry i).pvObj
  rw [length_range, listed.length_eq] at parts
  have counted := sound.count
  omega

/-- Whenever the lock is free, the free list runs once through all entries that are not in use, what
was returned is found and nothing else, and a handle is freed alone. -/
theorem handleTable_run {fContext : Bool} {uBase cMax : Nat} {table : Table} {labels : List Label}
    {s : State} (created : createEx fContext uBase cMax = some table)
    (run : Run (fun s label t => s.next label = some t) (.start table) labels s) :
    ((range s.table.cCur).filter fun i => !isFree (s.table.entry i).pvObj).length =
        s.table.cCurAllocated ∧
      (∃ free, Queue NIL_RTHT_INDEX s.table.next s.table.iFreeHead s.table.iFreeTail free ∧
        ∀ i, i ∈ free ↔ i < s.table.cCur ∧ isFree (s.table.entry i).pvObj = true) ∧
      Proper table s.events ∧
      (∀ h pvCtx fRetained,
        s.table.lookup h pvCtx fRetained =
            found fContext (liveIn s.events h) pvCtx fRetained ∧
          (s.table.free h pvCtx fRetained).1 =
            found fContext (liveIn s.events h) pvCtx fRetained) ∧
      ∀ h pvCtx fRetained t, s.next (.free h pvCtx fRetained) = some t →
        ∀ h' pvCtx' fRetained', t.table.lookup h' pvCtx' fRetained' =
          if (s.table.free h pvCtx fRetained).1 ≠ 0 ∧ h' = h then 0
          else s.table.lookup h' pvCtx' fRetained' := by
  have inv : Inv table s := run.invariant (Inv table) Inv.next (inv_start created)
  obtain ⟨free, sound⟩ := inv.sound
  have context : table.fContext = fContext := (sound_createEx created).2.1
  have freed : ∀ h pvCtx fRetained, (s.table.free h pvCtx fRetained).1 =
      s.table.retained h pvCtx fRetained := by
    intro h pvCtx fRetained
    unfold Table.free
    simp only
    split <;> rfl
  refine ⟨sound.inUse, ⟨free, sound.queue, sound.mem⟩, inv.proper, ?_, ?_⟩
  · intro h pvCtx fRetained
    rw [freed, ← context]
    exact ⟨inv.retained_eq h pvCtx fRetained, inv.retained_eq h pvCtx fRetained⟩
  · intro h pvCtx fRetained t taken h' pvCtx' fRetained'
    have after : t.table.lookup h' pvCtx' fRetained' = _ :=
      (inv.next taken).retained_eq h' pvCtx' fRetained'
    have before : s.table.lookup h' pvCtx' fRetained' = _ := inv.retained_eq h' pvCtx' fRetained'
    rw [after, before]
    have events : t.events =
        if (s.table.free h pvCtx fRetained).1 ≠ 0 then .freed h :: s.events else s.events := by
      rw [State.next] at taken
      cases taken
      rfl
    rw [events]
    by_cases success : (s.table.free h pvCtx fRetained).1 ≠ 0
    · rw [if_pos success, liveIn]
      by_cases same : h' = h
      · rw [if_pos same, if_pos ⟨success, same⟩, found]
      · rw [if_neg same, if_neg fun both => same both.2]
    · rw [if_neg success, if_neg fun both => success both.1]

/-- A thread expands the table for an object, and the object is freed. -/
def oneObject : List Label :=
  [.alloc 0 0x1000 7, .memory 0 true, .lock 0, .alloc 1 0x2000 8, .free 5 7 true]

theorem handleTable_run_oneObject :
    ∃ (table : Table) (s : State), createEx true 5 1 = some table ∧
      Run (fun s label t => s.next label = some t) (.start table) oneObject s ∧
      s.table.cCurAllocated = 1 ∧
      ((range s.table.cCur).filter fun i => !isFree (s.table.entry i).pvObj).length =
        s.table.cCurAllocated ∧
      Proper table s.events := by
  obtain ⟨s, run, one⟩ := Run.exists_of_follow (fun _ _ => True) State.next
    (.start ((createEx true 5 1).get (by decide))) oneObject
    (fun s => s.table.cCurAllocated = 1) (by decide +kernel)
  have created : createEx true 5 1 = some ((createEx true 5 1).get (by decide)) :=
    (Option.some_get _).symm
  have holds := handleTable_run created (run.mono And.right)
  exact ⟨_, s, created, run.mono And.right, one, holds.1, holds.2.2.1⟩

end VBox.Runtime.HandleTable
