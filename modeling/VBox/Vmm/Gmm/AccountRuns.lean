import VBox.Vmm.Gmm.BookSections
import Mathlib.Data.List.Perm.Basic

/-!
The page accounting over runs of sections.

Between the sections of an allocation its pages are charged already. The accounting is right
but for these pages in every state, and right in every state without an allocation on its way.
-/

namespace VBox.Vmm

open Function (update)
open VBox.Lib List Option
open GmmChunk (isPrivateOf)

namespace Gmm

variable {g : Gmm} {P : Nat} {Q : Nat → Nat}

/-! ### The accounting by places -/

/-- The free pages of a set are those of the chunks on its lists. -/
theorem freeOf_eq_lists (within : ∀ id pSet n, g.shelf id = some (pSet, n) →
      id ∈ chunkIds ∧ n ≤ chunkNumPages)
    (lists : ∀ pSet iList id, id ∈ (g.sets pSet).apLists iList ↔
      ∃ n, g.shelf id = some (pSet, n) ∧ iList = selectFreeSetList n)
    (nodup : ∀ pSet iList, ((g.sets pSet).apLists iList).Nodup) (pSet : SetId) :
    g.freeOf pSet = ∑ iList ∈ Finset.range (unusedList + 1),
      (((g.sets pSet).apLists iList).map fun id => ((g.chunks id).map (·.cFree)).getD 0).sum := by
  set cFree : Nat → Nat := fun id => ((g.chunks id).map (·.cFree)).getD 0 with def'
  have place : ∀ {id s n}, g.shelf id = some (s, n) → cFree id = n := by
    intro id s n on
    cases here : g.chunks id with
    | none =>
      rw [shelf, here] at on
      cases on
    | some chunk =>
      rw [shelf_of_chunk here] at on
      obtain ⟨s', -, eq⟩ := map_eq_some_iff.1 on
      cases eq
      simp [def', here]
  have there : ∀ id ∈ chunkIds.filter fun id => g.shelf id = some (pSet, cFree id),
      selectFreeSetList (cFree id) ∈ Finset.range (unusedList + 1) := by
    intro id mem
    have small := (within id pSet _ (Finset.mem_filter.1 mem).2).2
    rw [Finset.mem_range, selectFreeSetList, unusedList]
    rw [chunkNumPages] at small
    omega
  have split : g.freeOf pSet =
      ∑ id ∈ chunkIds.filter (fun id => g.shelf id = some (pSet, cFree id)), cFree id := by
    rw [freeOf, Finset.sum_filter]
    apply Finset.sum_congr rfl
    intro id _
    cases on : g.shelf id with
    | none => rfl
    | some at' =>
      obtain ⟨s, n⟩ := at'
      rw [place on]
      by_cases eq : s = pSet <;> simp [freeOn, eq]
  rw [split, ← Finset.sum_fiberwise_of_maps_to there]
  apply Finset.sum_congr rfl
  intro iList _
  rw [← sum_toFinset cFree (nodup pSet iList)]
  apply Finset.sum_congr _ fun _ _ => rfl
  ext id
  rw [List.mem_toFinset, lists, Finset.mem_filter, Finset.mem_filter]
  constructor
  · rintro ⟨⟨-, on⟩, list⟩
    exact ⟨_, on, list.symm⟩
  · rintro ⟨n, on, rfl⟩
    have eq := place on
    exact ⟨⟨(within id pSet n on).1, by rw [eq, on]⟩, by rw [eq]⟩

theorem total_eq (g : Gmm) (f : GmmChunk → Nat) : g.total f =
    ∑ id ∈ Finset.range (chunkIdLast + 1), ((g.chunks id).map f).getD 0 := by
  rw [total, chunkIds_eq]

/-- A sum over the chunks of what a chunk has no more than a few of is small. -/
theorem sum_small {f : Nat → Nat} (few : ∀ id, f id ≤ 2 * chunkNumPages) :
    ∑ id ∈ chunkIds, f id < 2 ^ 64 := by
  have le := Finset.sum_le_card_nsmul chunkIds f _ fun id _ => few id
  rw [chunkIds_eq, Finset.card_range] at le
  refine lt_of_le_of_lt (chunkIds_eq ▸ le) ?_
  decide

theorem Arranged.freeOf_small (arranged : g.Arranged) (pSet : SetId) : g.freeOf pSet < 2 ^ 64 := by
  apply sum_small
  intro id
  cases on : g.shelf id with
  | none => exact Nat.zero_le _
  | some at' =>
    obtain ⟨s, n⟩ := at'
    have small := (arranged.shelved.within id s n on).2
    rw [freeOn]
    split <;> omega

theorem Arranged.used_small (arranged : g.Arranged) : g.used < 2 ^ 64 := by
  apply sum_small
  intro id
  cases here : g.chunks id with
  | none => exact Nat.zero_le _
  | some chunk =>
    obtain ⟨-, counted, -⟩ := arranged.chunks id chunk here
    have privates := chunk.count_le GmmChunk.isPrivate
    have shared := chunk.count_le GmmChunk.isShared
    rw [map_some, getD_some, counted.cPrivate, counted.cShared]
    omega

theorem owned_small (g : Gmm) (h : Nat) : g.owned h < 2 ^ 64 := by
  apply sum_small
  intro id
  cases here : g.chunks id with
  | none => exact Nat.zero_le _
  | some chunk =>
    have le := chunk.count_le (isPrivateOf h)
    rw [map_some, getD_some]
    omega

/-- The counters of the pages in use are other ones. -/
def withCounts (g : Gmm) (total : Nat) (privates : Nat → Nat) : Gmm :=
  { g with
    cAllocatedPages := total
    vms := fun h => { g.vms h with cPrivatePages := privates h } }

theorem Arranged.accounted (arranged : g.Arranged) : (g.withCounts g.used g.owned).Accounted where
  chunks id chunk here :=
    ⟨mem_chunkIds.1 (arranged.chunks id chunk here).1, (arranged.chunks id chunk here).2.1⟩
  lists pSet iList id := by
    refine (arranged.shelved.lists pSet iList id).trans ⟨?_, ?_⟩
    · rintro ⟨n, on, list⟩
      cases here : g.chunks id with
      | none =>
        rw [shelf, here] at on
        cases on
      | some chunk =>
        rw [shelf_of_chunk here] at on
        obtain ⟨s, set, eq⟩ := map_eq_some_iff.1 on
        cases eq
        have linked := (arranged.chunks id chunk here).2.2
        exact ⟨chunk, here, set, linked.2 (by rw [set]; exact some_ne_none _), list⟩
    · rintro ⟨chunk, here, set, -, list⟩
      exact ⟨chunk.cFree, (shelf_of_chunk here).trans (GmmChunk.shelf_some set), list⟩
  linked id chunk here := (arranged.chunks id chunk here).2.2
  nodup := arranged.shelved.nodup
  cFreePages pSet := by
    have shelved := arranged.shelved
    refine Eq.trans ?_ (freeOf_eq_lists shelved.within shelved.lists shelved.nodup pSet)
    exact (shelved.cFreePages pSet).trans (Nat.mod_eq_of_lt (arranged.freeOf_small pSet))
  cAllocatedPages := g.total_eq fun chunk => chunk.cPrivate + chunk.cShared
  cPrivatePages h := g.total_eq (·.count (isPrivateOf h))

/-- Right accounting is an arrangement with nothing pending. -/
theorem Accounted.booked (accounted : g.Accounted) (legacy : g.fLegacyAllocationMode = false) :
    g.Booked 0 fun _ => 0 := by
  have within : ∀ id pSet n, g.shelf id = some (pSet, n) → id ∈ chunkIds ∧ n ≤ chunkNumPages := by
    intro id pSet n on
    cases here : g.chunks id with
    | none =>
      rw [shelf, here] at on
      cases on
    | some chunk =>
      obtain ⟨known, counted⟩ := accounted.chunks id chunk here
      rw [shelf_of_chunk here] at on
      obtain ⟨s, -, eq⟩ := map_eq_some_iff.1 on
      cases eq
      exact ⟨mem_chunkIds.2 known, counted.cFree_le⟩
  have lists : ∀ pSet iList id, id ∈ (g.sets pSet).apLists iList ↔
      ∃ n, g.shelf id = some (pSet, n) ∧ iList = selectFreeSetList n := by
    intro pSet iList id
    refine (accounted.lists pSet iList id).trans ⟨?_, ?_⟩
    · rintro ⟨chunk, here, set, -, list⟩
      exact ⟨chunk.cFree, (shelf_of_chunk here).trans (GmmChunk.shelf_some set), list⟩
    · rintro ⟨n, on, list⟩
      cases here : g.chunks id with
      | none =>
        rw [shelf, here] at on
        cases on
      | some chunk =>
        rw [shelf_of_chunk here] at on
        obtain ⟨s, set, eq⟩ := map_eq_some_iff.1 on
        cases eq
        have linked := accounted.linked id chunk here
        exact ⟨chunk, rfl, set, linked.2 (by rw [set]; exact some_ne_none _), list⟩
  have total : g.cAllocatedPages = g.used := by
    rw [accounted.cAllocatedPages, used, total_eq]
  have privates : ∀ h, (g.vms h).cPrivatePages = g.owned h := by
    intro h
    rw [accounted.cPrivatePages, owned, total_eq]
  have sums : ∀ pSet, (g.sets pSet).cFreePages = g.freeOf pSet := fun pSet =>
    (accounted.cFreePages pSet).trans (freeOf_eq_lists within lists accounted.nodup pSet).symm
  have arranged : ∀ shelved : g.Shelved, g.Arranged := by
    intro shelved
    refine ⟨legacy, shelved, ?_⟩
    intro id chunk here
    obtain ⟨known, counted⟩ := accounted.chunks id chunk here
    exact ⟨mem_chunkIds.2 known, counted, accounted.linked id chunk here⟩
  have small : ∀ pSet, g.freeOf pSet < 2 ^ 64 := by
    intro pSet
    apply sum_small
    intro id
    cases on : g.shelf id with
    | none => exact Nat.zero_le _
    | some at' =>
      obtain ⟨s, n⟩ := at'
      have few := (within id s n on).2
      rw [freeOn]
      split <;> omega
  have shelved : g.Shelved := ⟨within, lists, accounted.nodup, fun pSet => by
    rw [sums, Nat.mod_eq_of_lt (small pSet)]⟩
  refine ⟨arranged shelved, ?_, ?_⟩
  · rw [Nat.add_zero, total, Nat.mod_eq_of_lt (arranged shelved).used_small]
  · intro h
    rw [Nat.add_zero, privates, Nat.mod_eq_of_lt (owned_small g h)]

end Gmm

/-! ### Runs -/

/-- The sections of all calls; a chunk may be mapped and unmapped between them. -/
inductive PageLabel where
  | serve (label : GmmLabel)
  | freeLargePage (hGVM idPage : Nat)
  | setMappings (id cMappingsX : Nat)

namespace GmmMachine

variable {m m' : GmmMachine}

def pageNext (m : GmmMachine) : PageLabel → Option GmmMachine
  | .serve label => m.next label
  | .freeLargePage hGVM idPage => some { m with gmm := (m.gmm.freeLargePage hGVM idPage).1 }
  | .setMappings id cMappingsX => (m.gmm.chunks id).map fun chunk =>
      { m with gmm := m.gmm.setChunk id { chunk with cMappingsX } }

def PageStep (m : GmmMachine) (label : PageLabel) (m' : GmmMachine) : Prop :=
  m.pageNext label = some m'

/-- The pages that have been charged and are still wanted. -/
def pending (m : GmmMachine) : Nat := (m.calls.map (·.left.length)).sum

def pendingOf (m : GmmMachine) (h : Nat) : Nat :=
  (m.calls.map fun call => if h = call.hGVM then call.left.length else 0).sum

/-- The accounting is right but for the pages that are pending. -/
def AccountedFor (m : GmmMachine) : Prop := ∃ total privates,
  (m.gmm.withCounts total privates).Accounted ∧
  m.gmm.cAllocatedPages = (total + m.pending) % 2 ^ 64 ∧
  ∀ h, (m.gmm.vms h).cPrivatePages = (privates h + m.pendingOf h) % 2 ^ 64

/-- A VM is known by a handle of 16 bits. An allocation that gives up still has the pages that
it got; a large page that is freed is a chunk of its own, which nobody has mapped. -/
def Rightful (m : GmmMachine) : PageLabel → Prop
  | .serve (.allocatePages hGVM _ _) => hGVM < 2 ^ 16
  | .serve (.allocateHandyPages hGVM _ cPagesToAlloc) => hGVM < 2 ^ 16 ∧ cPagesToAlloc < 2 ^ 32
  | .serve (.allocateChunk iCall host) => ∀ call, m.calls[iCall]? = some call →
      m.gmm.GivesUp call host → m.gmm.StillHas call
  | .serve (.allocateLargePage hGVM) => hGVM < 2 ^ 16
  | .freeLargePage hGVM idPage => ∀ pfn owner, m.gmm.getPage idPage = some (.priv pfn owner) →
      chunkNumPages ≤ (m.gmm.vms hGVM).allocated .base →
      m.gmm.OwnsWhole hGVM (idPage / chunkNumPages)
  | _ => True

/-- What every section keeps. -/
structure Kept (m : GmmMachine) : Prop where
  booked : m.gmm.Booked m.pending m.pendingOf
  calls : ∀ call ∈ m.calls, Gmm.CallOk call
  larges : ∀ hGVM ∈ m.larges, hGVM < 2 ^ 16

namespace Kept

/-- A section of an allocation ends. -/
theorem leave {r : Gmm × Outcome} (leaves : Gmm.Leaves m.pending m.pendingOf r)
    (calls : ∀ call ∈ m.calls, Gmm.CallOk call) (larges : ∀ hGVM ∈ m.larges, hGVM < 2 ^ 16) :
    (m.leave r).Kept := by
  obtain ⟨gmm, outcome⟩ := r
  cases outcome with
  | done rc => exact ⟨leaves, calls, larges⟩
  | grow call =>
    obtain ⟨booked, ok⟩ := leaves
    have pending : (m.leave (gmm, .grow call)).pending = m.pending + call.left.length := by
      simp [GmmMachine.pending, GmmMachine.leave]
    have pendingOf : (m.leave (gmm, .grow call)).pendingOf =
        Gmm.plus m.pendingOf call.hGVM call.left.length := by
      funext h
      simp [GmmMachine.pendingOf, GmmMachine.leave, Gmm.plus]
    refine ⟨?_, ?_, larges⟩
    · rw [pending, pendingOf]
      exact booked
    · intro other mem
      rcases mem_append.1 mem with mem | mem
      · exact calls other mem
      · cases mem_singleton.1 mem
        exact ok

/-- An allocation that is carried on is not among those that wait. -/
theorem carryOn (kept : m.Kept) {iCall : Nat} {call : AllocCall}
    (waiting : m.calls[iCall]? = some call) :
    m.gmm.Booked ({ m with calls := m.calls.eraseIdx iCall }.pending + call.left.length)
      (Gmm.plus { m with calls := m.calls.eraseIdx iCall }.pendingOf call.hGVM
        call.left.length) := by
  obtain ⟨bound, eq⟩ := List.getElem?_eq_some_iff.1 waiting
  have perm := getElem_cons_eraseIdx_perm bound
  rw [eq] at perm
  have pending : m.pending =
      { m with calls := m.calls.eraseIdx iCall }.pending + call.left.length := by
    have sums := (perm.map (·.left.length)).sum_eq
    rw [map_cons, sum_cons] at sums
    rw [GmmMachine.pending, GmmMachine.pending, ← sums, Nat.add_comm]
  have pendingOf : m.pendingOf = Gmm.plus { m with calls := m.calls.eraseIdx iCall }.pendingOf
      call.hGVM call.left.length := by
    funext h
    have sums := (perm.map fun c => if h = c.hGVM then c.left.length else 0).sum_eq
    rw [map_cons, sum_cons] at sums
    rw [GmmMachine.pendingOf, Gmm.plus, GmmMachine.pendingOf, ← sums, Nat.add_comm]
  have booked := kept.booked
  rw [pending, pendingOf] at booked
  exact booked

/-- A section that keeps the books, beside the calls that wait. -/
theorem beside (kept : m.Kept) {gmm : Gmm} (booked : gmm.Booked m.pending m.pendingOf) :
    { m with gmm }.Kept :=
  ⟨booked, kept.calls, kept.larges⟩

theorem serve (kept : m.Kept) {label : GmmLabel} (rightful : m.Rightful (.serve label))
    (step : m.next label = some m') : m'.Kept := by
  cases label with
  | allocatePages hGVM enmAccount descs =>
    cases step
    exact leave (kept.booked.allocatePages rightful descs) kept.calls kept.larges
  | allocateHandyPages hGVM updates cPagesToAlloc =>
    cases step
    exact leave (kept.booked.allocateHandyPages rightful.1 updates rightful.2) kept.calls
      kept.larges
  | allocateChunk iCall host =>
    obtain ⟨call, waiting, rfl⟩ := map_eq_some_iff.1 step
    have ok := kept.calls call (mem_of_getElem? waiting)
    apply leave ((kept.carryOn waiting).allocateChunkNew ok (rightful call waiting))
    · intro other mem
      exact kept.calls other (mem_of_mem_eraseIdx mem)
    · exact kept.larges
  | allocateLargePage hGVM =>
    cases step
    split
    · refine ⟨kept.booked, kept.calls, ?_⟩
      intro other mem
      rcases mem_append.1 mem with mem | mem
      · exact kept.larges other mem
      · cases mem_singleton.1 mem
        exact rightful
    · exact kept
  | allocateLargePageChunk iLarge host =>
    obtain ⟨hGVM, waiting, rfl⟩ := map_eq_some_iff.1 step
    have handle := kept.larges hGVM (mem_of_getElem? waiting)
    refine ⟨kept.booked.allocateLargePageChunk handle host, kept.calls, ?_⟩
    intro other mem
    exact kept.larges other (mem_of_mem_eraseIdx mem)
  | freePages hGVM enmAccount ids =>
    cases step
    exact kept.beside (kept.booked.freePages hGVM enmAccount ids)
  | balloonedPages hGVM enmAction cBalloonedPages =>
    cases step
    exact kept.beside (kept.booked.balloonedPages hGVM enmAction cBalloonedPages)

theorem step (kept : m.Kept) {label : PageLabel} (rightful : m.Rightful label)
    (step : m.PageStep label m') : m'.Kept := by
  unfold PageStep at step
  cases label with
  | serve label => exact kept.serve rightful step
  | freeLargePage hGVM idPage =>
    cases step
    exact kept.beside (kept.booked.freeLargePage hGVM rightful)
  | setMappings id cMappingsX =>
    obtain ⟨chunk, here, rfl⟩ := map_eq_some_iff.1 step
    exact kept.beside (kept.booked.setMappings cMappingsX here)

theorem accountedFor (kept : m.Kept) : m.AccountedFor :=
  ⟨m.gmm.used, m.gmm.owned, kept.booked.accounted, kept.booked.cAllocatedPages,
    kept.booked.cPrivatePages⟩

/-- Without an allocation on its way nothing is pending. -/
theorem accounted (kept : m.Kept) (idle : m.calls = []) : m.gmm.Accounted := by
  have total : m.gmm.cAllocatedPages = m.gmm.used := by
    have booked := kept.booked.cAllocatedPages
    rw [pending, idle] at booked
    exact booked.trans (Nat.mod_eq_of_lt kept.booked.used_small)
  have privates : ∀ h, (m.gmm.vms h).cPrivatePages = m.gmm.owned h := by
    intro h
    have booked := kept.booked.cPrivatePages h
    rw [pendingOf, idle] at booked
    exact booked.trans (Nat.mod_eq_of_lt (m.gmm.owned_small h))
  have accounted := kept.booked.accounted
  have same : m.gmm.withCounts m.gmm.used m.gmm.owned = m.gmm := by
    unfold Gmm.withCounts
    simp only [← total, ← privates]
  rwa [same] at accounted

end Kept

theorem kept_of_accounted (accounted : m.gmm.Accounted)
    (legacy : m.gmm.fLegacyAllocationMode = false) (idle : m.calls = [] ∧ m.larges = []) :
    m.Kept := by
  refine ⟨?_, ?_, ?_⟩
  · have nothing : m.pendingOf = fun _ => 0 := by
      funext h
      rw [pendingOf, idle.1]
      rfl
    rw [pending, nothing, idle.1]
    exact accounted.booked legacy
  · rw [idle.1]
    intro call mem
    cases mem
  · rw [idle.2]
    intro hGVM mem
    cases mem

theorem kept_run {labels : List PageLabel} (kept : m.Kept)
    (run : Run (Guarded Rightful PageStep) m labels m') : m'.Kept :=
  run.invariant (·.Kept) (fun kept step => kept.step step.1 step.2) kept

/-- From right accounting on, the accounting is right in every state but for the pages that are
pending, and right altogether when no allocation is on its way. -/
theorem run_accounted {labels : List PageLabel} (accounted : m.gmm.Accounted)
    (legacy : m.gmm.fLegacyAllocationMode = false) (idle : m.calls = [] ∧ m.larges = [])
    (run : Run (Guarded Rightful PageStep) m labels m') :
    m'.AccountedFor ∧ (m'.calls = [] → m'.gmm.Accounted) := by
  have kept := kept_run (kept_of_accounted accounted legacy idle) run
  exact ⟨kept.accountedFor, kept.accounted⟩

theorem reserved600_accounted : reserved600.gmm.Accounted where
  chunks _ _ here := by cases here
  lists pSet iList id := by simp [reserved600]
  linked _ _ here := by cases here
  nodup _ _ := nodup_nil
  cFreePages _ := by simp [reserved600]
  cAllocatedPages := by simp [reserved600]
  cPrivatePages _ := by simp [reserved600]

/-- One page is wanted, and there is no chunk. -/
def oneWanted : GmmMachine :=
  reserved600.leave (reserved600.gmm.allocatePages 1 .base [nilHCPhys])

theorem oneWanted_run : Run (Guarded Rightful PageStep) reserved600
    [.serve (.allocatePages 1 .base [nilHCPhys])] oneWanted :=
  .next ⟨(by decide : 1 < 2 ^ 16), rfl⟩ (.done _)

/-- The page is taken from a new chunk. -/
theorem run_accounted_one : ∃ m, Run (Guarded Rightful PageStep) reserved600
    [.serve (.allocatePages 1 .base [nilHCPhys]), .serve (.allocateChunk 0 .memory)] m ∧
    m.gmm.cAllocatedPages = 1 ∧ m.AccountedFor ∧ (m.calls = [] → m.gmm.Accounted) := by
  have chunk : (oneWanted.gmm.registerChunk (oneWanted.gmm.setFor 1) 1).2 ≠ none := by
    decide +kernel
  have rightful : oneWanted.Rightful (.serve (.allocateChunk 0 .memory)) := by
    intro call waiting gone
    cases waiting
    exact absurd gone chunk
  have run := oneWanted_run.snoc ⟨rightful, rfl⟩
  exact ⟨_, run, by decide +kernel, run_accounted reserved600_accounted rfl ⟨rfl, rfl⟩ run⟩

/-- While the chunk is on its way the page is allocated, and no chunk counts it. -/
theorem pending_unaccounted : reserved600.gmm.Accounted ∧
    reserved600.gmm.fLegacyAllocationMode = false ∧ ∃ m, Run PageStep reserved600
      [.serve (.allocatePages 1 .base [nilHCPhys])] m ∧ ¬ m.gmm.Accounted := by
  refine ⟨reserved600_accounted, rfl, oneWanted, oneWanted_run.mono fun step => step.2, ?_⟩
  intro accounted
  have kept := kept_run (kept_of_accounted reserved600_accounted rfl ⟨rfl, rfl⟩) oneWanted_run
  have one : oneWanted.pending = 1 := by decide +kernel
  have booked := kept.booked.cAllocatedPages
  have alone := (accounted.booked kept.booked.legacy).cAllocatedPages
  rw [one] at booked
  omega

end GmmMachine

end VBox.Vmm
