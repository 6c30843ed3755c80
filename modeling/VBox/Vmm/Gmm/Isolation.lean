import VBox.Vmm.Gmm.Frame

/-!
What a VM's calls do to the other VMs.

Allocations, updates and freeing page by page leave every page of the others alone: they take
free pages only, and check the owner before they change one. Freeing a large page checks that
the page is private, not whose it is, and the chunk may hold pages of others.
-/

namespace VBox.Vmm

open List
open Function (update)

namespace Gmm

variable {A idPage : Nat} {g : Gmm}

/-! ### Accounts -/

section

variable (protects : Nat → Nat → Prop) (listed : g.Listed)

include protects listed

theorem keeps_setPrivatePages (n : Nat) : Keeps protects A g (g.setPrivatePages A n) := by
  refine .of_chunks listed (by simp [setPrivatePages]) ?_
  intro B other
  simp [setPrivatePages, other]

theorem keeps_discharge (enmAccount : GmmAccount) (cPages : Nat) :
    Keeps protects A g (g.discharge A enmAccount cPages) := by
  refine .of_chunks listed (by simp [discharge]) ?_
  intro B other
  simp [discharge, other]

theorem keeps_chargePages (enmAccount : GmmAccount) (cPages : Nat) :
    Keeps protects A g (g.chargePages A enmAccount cPages) := by
  refine .of_chunks listed (by simp [chargePages, charge, setPrivatePages]) ?_
  intro B other
  simp [chargePages, charge, setPrivatePages, other]

theorem keeps_dischargePages (enmAccount : GmmAccount) (cPages cAllocated : Nat) :
    Keeps protects A g (g.dischargePages A enmAccount cPages cAllocated) := by
  refine .of_chunks listed (by simp [dischargePages, discharge, setPrivatePages]) ?_
  intro B other
  simp [dischargePages, discharge, setPrivatePages, other]

end

/-! ### Allocations -/

/-- What a section of an allocation leaves: the pages of the others, and a call that owns
what it has. -/
structure Apart (A : Nat) (g : Gmm) (r : Gmm × Outcome) : Prop where
  keeps : Keeps (othersPage A) A g r.1
  owns : ∀ call, r.2 = .grow call → call.hGVM = A ∧ Owns A call.ids r.1

variable {call : AllocCall}

theorem apart_allocated {p : Pick} (keeps : Keeps (othersPage A) A g p.gmm) (handle : call.hGVM = A)
    (owns : Owns A p.ids p.gmm) : Apart A g (allocated call p) := by
  unfold allocated
  split
  · exact ⟨keeps, fun call eq => by cases eq⟩
  · refine ⟨keeps, ?_⟩
    intro call eq
    cases eq
    exact ⟨handle, owns⟩

theorem apart_done {g' : Gmm} (keeps : Keeps (othersPage A) A g g') (rc : GmmRc) :
    Apart A g (g', .done rc) :=
  ⟨keeps, fun call eq => by cases eq⟩

theorem apart_pickPages (handle : A < 2 ^ 16) (listed : g.Listed) (mine : call.hGVM = A)
    (owns : Owns A call.ids g) : Apart A g (g.pickPages call) := by
  subst mine
  have bound := (Pick.growsRule handle).inBoundMode ⟨g, call.ids, call.left⟩ listed
  have shared := (Pick.growsRule handle).pickShared ⟨g, call.ids, call.left⟩ listed
  unfold pickPages
  simp only
  split
  · exact apart_done bound.keeps.of_any _
  · split
    · exact apart_allocated bound.keeps.of_any rfl (bound.owns owns)
    · exact apart_allocated shared.keeps.of_any rfl (shared.owns owns)

theorem apart_allocatePagesNew (handle : A < 2 ^ 16) (listed : g.Listed) (enmAccount : GmmAccount)
    (descs : List Nat) : Apart A g (g.allocatePagesNew A enmAccount descs) := by
  have charged := keeps_chargePages (A := A) (othersPage A) listed enmAccount descs.length
  have picked : Apart A _ ((g.chargePages A enmAccount descs.length).pickPages
      ⟨A, enmAccount, descs.length, [], descs⟩) :=
    apart_pickPages handle charged.listed rfl ⟨nodup_nil, by simp⟩
  unfold allocatePagesNew
  split
  · exact ⟨charged.trans picked.keeps, picked.owns⟩
  · exact apart_done (.refl listed) _

/-- The pages that a failed allocation gives back are its own. -/
theorem keeps_releasePages {ids : List Nat} (listed : g.Listed) (owns : Owns A ids g) :
    Keeps (othersPage A) A g (releasePages A ids g) := by
  induction ids generalizing g with
  | nil => exact .refl listed
  | cons idPage ids ih =>
    obtain ⟨nodup, owned⟩ := owns
    obtain ⟨fresh, nodup⟩ := nodup_cons.1 nodup
    obtain ⟨pfn, page⟩ := owned idPage mem_cons_self
    have freed := keeps_freePrivatePage (A := A) listed page (by simp)
    have rest : Owns A ids (g.freePrivatePage A idPage) := by
      refine ⟨nodup, ?_⟩
      intro other mem
      obtain ⟨pfn', page'⟩ := owned other (mem_cons_of_mem _ mem)
      refine ⟨pfn', freed.pages other pfn' A ?_ page'⟩
      rintro rfl
      exact fresh mem
    unfold releasePages
    rw [page]
    exact (freed.of_owned page).trans (ih freed.listed rest)

theorem keeps_cleanUp (listed : g.Listed) (handle : call.hGVM = A) (owns : Owns A call.ids g) :
    Keeps (othersPage A) A g (g.cleanUp call) := by
  subst handle
  have discharged := keeps_dischargePages (A := call.hGVM) anyPage listed call.enmAccount
    call.cPages call.left.length
  have mine := owns.keeps discharged
  exact discharged.of_any.trans (keeps_releasePages discharged.listed
    ⟨nodup_reverse.2 mine.1, fun idPage mem => mine.2 idPage (mem_reverse.1 mem)⟩)

section

variable (handle : A < 2 ^ 16) (listed : g.Listed) (mine : call.hGVM = A) (owns : Owns A call.ids g)

include handle listed mine owns

theorem apart_useChunk : Apart A g (g.useChunk call) := by
  subst mine
  have registered := keeps_registerChunk (A := call.hGVM) listed (g.setFor call.hGVM) call.hGVM
  unfold useChunk
  split
  · rename_i g' eq
    rw [eq] at registered
    exact apart_done (registered.of_any.trans
      (keeps_cleanUp registered.listed rfl (owns.keeps registered))) _
  · rename_i g' id eq
    rw [eq] at registered
    have owns' := owns.keeps registered
    split
    · refine ⟨registered.of_any, ?_⟩
      intro other eq
      cases eq
      exact ⟨rfl, owns'⟩
    · rename_i chunk here
      have taken := Pick.grows_allocatePagesFromChunk (p := ⟨g', call.ids, call.left⟩) chunk.hGVM
        handle registered.listed here
      exact apart_allocated (registered.trans taken.keeps).of_any rfl (taken.owns owns')

theorem apart_withoutChunk (rc : GmmRc) : Apart A g (g.withoutChunk call rc) := by
  subst mine
  have rule := Pick.growsRule handle
  have scavenged := rule.ifMore (rule.indiscriminately .privateX ⟨g, call.ids, call.left⟩)
    (rule.indiscriminately .shared) listed
  unfold withoutChunk
  split
  · exact apart_done scavenged.keeps.of_any _
  · exact apart_done (keeps_cleanUp listed rfl owns) _

theorem apart_allocateChunkNew (host : HostResult) : Apart A g (g.allocateChunkNew call host) := by
  cases host with
  | memory => exact apart_useChunk handle listed mine owns
  | failed rc => exact apart_withoutChunk handle listed mine owns rc

end

/-! ### Updates of handy pages -/

theorem keeps_updatePrivate (listed : g.Listed) (update : HandyUpdate) :
    Keeps (othersPage A) A g (g.updatePrivate A update).1 := by
  unfold updatePrivate
  split
  · exact .refl listed
  · split
    · exact .refl listed
    · rename_i pfn owner page
      split
      · rename_i mine
        subst mine
        exact (keeps_setPage listed page (by simp) _).of_owned page
      · exact .refl listed
    · exact .refl listed

theorem keeps_updateShared (listed : g.Listed) (update : HandyUpdate) :
    Keeps (othersPage A) A g (g.updateShared A update).1 := by
  unfold updateShared
  split
  · exact .refl listed
  · split
    · exact .refl listed
    · rename_i pfn cRefs page
      have discharged := keeps_discharge (A := A) (othersPage A) listed .base 1
      have page' : (g.discharge A .base 1).getPage update.idSharedPage =
          some (.shared pfn cRefs) := by simpa [getPage, discharge] using page
      simp only
      generalize g.discharge A .base 1 = g' at discharged page' ⊢
      have released := keeps_releaseSharedPage (A := A) discharged.listed page'
      exact discharged.trans released.of_any
    · exact .refl listed

theorem keeps_updateHandy (updates : List HandyUpdate) (listed : g.Listed) :
    Keeps (othersPage A) A g (updateHandy A updates g).1 := by
  induction updates generalizing g with
  | nil => exact .refl listed
  | cons update updates ih =>
    have private' := keeps_updatePrivate (A := A) listed update
    unfold updateHandy
    split
    · rename_i g' eq
      rw [eq] at private'
      have shared := keeps_updateShared (A := A) private'.listed update
      split
      · rename_i g'' eq
        rw [eq] at shared
        exact (private'.trans shared).trans (ih shared.listed)
      · rename_i g'' rc _ eq
        rw [eq] at shared
        exact private'.trans shared
    · rename_i g' rc _ eq
      rw [eq] at private'
      exact private'

/-! ### Freeing -/

theorem keeps_freeLoop (ids : List Nat) (iPage : Nat) (listed : g.Listed) :
    Keeps (othersPage A) A g (freeLoop A ids iPage g).1 := by
  induction ids generalizing g iPage with
  | nil => exact .refl listed
  | cons idPage ids ih =>
    unfold freeLoop
    split
    · exact .refl listed
    · rename_i pfn owner page
      split
      · rename_i mine
        subst mine
        have counted := keeps_setPrivatePages (A := owner) (othersPage owner) listed
          (subW 64 (g.vms owner).cPrivatePages 1)
        have freed := (keeps_freePrivatePage (A := owner) counted.listed page
          (by simp)).of_owned page
        exact (counted.trans freed).trans (ih (iPage + 1) freed.listed)
      · exact .refl listed
    · rename_i pfn cRefs page
      have released := (keeps_releaseSharedPage (A := A) listed page)
      exact released.of_any.trans (ih (iPage + 1) released.listed)
    · exact .refl listed

theorem keeps_freePages (listed : g.Listed) (enmAccount : GmmAccount) (ids : List Nat) :
    Keeps (othersPage A) A g (g.freePages A enmAccount ids).1 := by
  unfold freePages
  split
  · exact .refl listed
  · split
    · exact .refl listed
    · have freed := keeps_freeLoop (A := A) ids 0 listed
      exact freed.trans (keeps_discharge _ freed.listed enmAccount _)

/-- No page of the chunk that a large page is freed with is private to another VM. -/
def OthersOff (A : Nat) (chunk : GmmChunk) : Prop :=
  ∀ i pfn owner, i < chunkNumPages → chunk.aPages i = .priv pfn owner → owner = A

/-- Freeing a large page would take a chunk that is not mapped and holds a page of another
VM. -/
def Overreaches (A : Nat) (g : Gmm) (idPage : Nat) : Prop :=
  g.fLegacyAllocationMode = false ∧ chunkNumPages ≤ (g.vms A).allocated .base ∧
    ∃ chunk, g.chunks (idPage / chunkNumPages) = some chunk ∧
      GmmChunk.isPrivate (chunk.aPages (idPage % chunkNumPages)) ∧ chunk.cMappingsX = 0 ∧
      ¬ OthersOff A chunk

theorem keeps_freeLargePage (listed : g.Listed) (within : ¬ Overreaches A g idPage) :
    Keeps (othersPage A) A g (g.freeLargePage A idPage).1 := by
  unfold freeLargePage
  split
  · exact .refl listed
  · rename_i legacy
    split
    · exact .refl listed
    · rename_i enough
      split
      · exact .refl listed
      · rename_i chunk here
        split
        · rename_i pfn owner page
          have freed : Keeps (othersPage A) A g (g.freeChunk (idPage / chunkNumPages) chunk) := by
            by_cases mapped : chunk.cMappingsX = 0
            · apply keeps_freeChunk listed here
              intro i pfn' owner' bound foreign page'
              have off : OthersOff A chunk := by
                by_contra off
                exact within ⟨by simpa using legacy, not_lt.1 enough, chunk, here, by
                  rw [page]; rfl, mapped, off⟩
              exact foreign (off i pfn' owner' bound page')
            · rw [freeChunk, if_pos mapped]
              exact .refl listed
          exact freed.trans (keeps_dischargePages _ freed.listed .base _ _)
        · exact .refl listed

/-- The page of the other VM is gone with the chunk. -/
theorem freeLargePage_loses (loses : Overreaches A g idPage) : ∃ other pfn owner, owner ≠ A ∧
    g.getPage other = some (.priv pfn owner) ∧ (g.freeLargePage A idPage).1.getPage other = none := by
  obtain ⟨legacy, enough, chunk, here, private', unmapped, others⟩ := loses
  simp only [OthersOff, not_forall, exists_prop] at others
  obtain ⟨i, pfn, owner, bound, page, foreign⟩ := others
  refine ⟨idPage / chunkNumPages * chunkNumPages + i, pfn, owner, foreign, ?_, ?_⟩
  · rw [getPage_at here bound, page]
  · have number : (idPage / chunkNumPages * chunkNumPages + i) / chunkNumPages =
        idPage / chunkNumPages := by
      rw [Nat.mul_comm, Nat.mul_add_div (by decide), Nat.div_eq_of_lt bound, Nat.add_zero]
    have gone : (g.freeLargePage A idPage).1.chunks (idPage / chunkNumPages) = none := by
      unfold freeLargePage
      rw [if_neg (by simp [legacy]), if_neg (not_lt.2 enough)]
      simp only [here]
      cases free : chunk.aPages (idPage % chunkNumPages) with
      | priv pfn owner =>
        simp [dischargePages, discharge, setPrivatePages, freeChunk, unmapped]
      | shared => simp [free, GmmChunk.isPrivate] at private'
      | free => simp [free, GmmChunk.isPrivate] at private'
    rw [getPage, number, gone, Option.map_none]

/-! ### Whole calls -/

/-- Carry an allocation on, with what the host makes of its requests. -/
def carryOn : List HostResult → Gmm × Outcome → Gmm
  | host :: hosts, (g, .grow call) => carryOn hosts (g.allocateChunkNew call host)
  | _, (g, _) => g

theorem keeps_carryOn (handle : A < 2 ^ 16) (hosts : List HostResult) {r : Gmm × Outcome}
    (apart : Apart A g r) : Keeps (othersPage A) A g (carryOn hosts r) := by
  induction hosts generalizing g r with
  | nil =>
    unfold carryOn
    exact apart.keeps
  | cons host hosts ih =>
    obtain ⟨g', outcome⟩ := r
    cases outcome with
    | done rc => exact apart.keeps
    | grow call =>
      obtain ⟨mine, owns⟩ := apart.owns call rfl
      exact apart.keeps.trans (ih (apart_allocateChunkNew handle apart.keeps.listed mine owns host))

end Gmm

/-- The calls that take page ids and counts from ring-3. -/
inductive GmmCall where
  | allocatePages (enmAccount : GmmAccount) (descs : List Nat)
  | allocateHandyPages (updates : List Gmm.HandyUpdate) (cPagesToAlloc : Nat)
  | freePages (enmAccount : GmmAccount) (ids : List Nat)
  | freeLargePage (idPage : Nat)

namespace GmmCall

open Gmm

/-- Serve a call of the VM. -/
def serve (A : Nat) (hosts : List HostResult) (g : Gmm) : GmmCall → Gmm
  | .allocatePages enmAccount descs => carryOn hosts (g.allocatePages A enmAccount descs)
  | .allocateHandyPages updates cPagesToAlloc =>
      carryOn hosts (g.allocateHandyPages A updates cPagesToAlloc)
  | .freePages enmAccount ids => (g.freePages A enmAccount ids).1
  | .freeLargePage idPage => (g.freeLargePage A idPage).1

/-- The call frees a large page whose chunk is not all the VM's. -/
def Overreaches (A : Nat) (g : Gmm) : GmmCall → Prop
  | .freeLargePage idPage => g.Overreaches A idPage
  | _ => False

end GmmCall

namespace Gmm

variable {A : Nat} {g : Gmm}

/-- Every page of another VM is still there, with its frame number, and the counters of the
other VMs are unchanged. -/
structure Isolated (A : Nat) (g g' : Gmm) : Prop where
  pages : ∀ B idPage pfn, B ≠ A → g.getPage idPage = some (.priv pfn B) →
    g'.getPage idPage = some (.priv pfn B)
  vms : ∀ B, B ≠ A → g'.vms B = g.vms B

section

variable (handle : A < 2 ^ 16) (listed : g.Listed)

include handle listed

theorem apart_allocatePages (enmAccount : GmmAccount) (descs : List Nat) :
    Apart A g (g.allocatePages A enmAccount descs) := by
  unfold allocatePages
  split
  · exact apart_done (.refl listed) _
  · split
    · exact apart_allocatePagesNew handle listed enmAccount descs
    · exact apart_done (.refl listed) _

theorem apart_allocateHandyPages (updates : List HandyUpdate) (cPagesToAlloc : Nat) :
    Apart A g (g.allocateHandyPages A updates cPagesToAlloc) := by
  have updated := keeps_updateHandy (A := A) updates listed
  unfold allocateHandyPages
  split
  · exact apart_done (.refl listed) _
  · split
    · split
      · rename_i g' eq
        rw [eq] at updated
        split
        · exact apart_done updated _
        · have apart := apart_allocatePagesNew handle updated.listed .base
            (replicate cPagesToAlloc nilHCPhys)
          exact ⟨updated.trans apart.keeps, apart.owns⟩
      · rename_i g' rc _ eq
        rw [eq] at updated
        exact apart_done updated _
    · exact apart_done (.refl listed) _

theorem keeps_serve (hosts : List HostResult) (call : GmmCall) (within : ¬ call.Overreaches A g) :
    Keeps (othersPage A) A g (call.serve A hosts g) := by
  cases call with
  | allocatePages enmAccount descs =>
    exact keeps_carryOn handle hosts (apart_allocatePages handle listed enmAccount descs)
  | allocateHandyPages updates cPagesToAlloc =>
    exact keeps_carryOn handle hosts (apart_allocateHandyPages handle listed updates cPagesToAlloc)
  | freePages enmAccount ids => exact keeps_freePages listed enmAccount ids
  | freeLargePage idPage => exact keeps_freeLargePage listed within

end

/-! ### Two neighbours -/

/-- The chunk of VM 2: one page is taken, and not mapped yet. -/
def firstPage : GmmChunk where
  pSet := some .privateX
  cMappingsX := 0
  iFreeHead := 1
  cFree := 511
  hGVM := 2
  cPrivate := 1
  cShared := 0
  aPages iPage :=
    if iPage = 0 then .priv pfnUnshareable 2
    else .free (if iPage + 1 < chunkNumPages then iPage + 1 else 65535)

/-- The large page of VM 1. -/
def largePage : GmmChunk where
  pSet := none
  cMappingsX := 0
  iFreeHead := 65535
  cFree := 0
  hGVM := 1
  cPrivate := 512
  cShared := 0
  aPages _ := .priv pfnUnshareable 1

/-- VM 2 has taken a page, and VM 1 a large one. -/
def neighbours : Gmm where
  chunks id := if id = 1 then some firstPage else if id = 2 then some largePage else none
  bmChunkId id := id ≤ 2
  idChunkPrev := 2
  sets pSet := if pSet = .privateX then ⟨511, fun iList => if iList = 31 then [1] else []⟩
    else ⟨0, fun _ => []⟩
  vms hGVM :=
    let cPages := if hGVM = 1 then 512 else if hGVM = 2 then 1 else 0
    ⟨fun _ => 1024, fun enmAccount => if enmAccount = .base then cPages else 0, cPages, 0, 0,
      if hGVM = 2 then 1 else 0⟩
  cMaxPages := 4096
  cAllocatedPages := 513
  cSharedPages := 0
  cDuplicatePages := 0
  cBalloonedPages := 0
  fLegacyAllocationMode := false
  fBoundMemoryMode := false

theorem firstPage_counted : firstPage.Counted := by
  refine ⟨⟨range' 1 511, FreeChain.row (by decide) ?_, by simp [firstPage], ?_⟩, by decide +kernel,
    by decide +kernel⟩
  · intro i low high
    refine ⟨_, if_neg (by simp [firstPage] at low; omega), ?_⟩
    intro lt
    exact if_pos lt
  · intro i iNext bound free
    have ne : i ≠ 0 := by
      rintro rfl
      simp [firstPage] at free
    simp [chunkNumPages] at bound
    simp
    omega

theorem largePage_counted : largePage.Counted := by
  refine ⟨⟨[], .nil _, rfl, ?_⟩, by decide +kernel, by decide +kernel⟩
  intro i iNext _ free
  cases free

/-- Two chunks are registered. -/
theorem sum_neighbours (f : GmmChunk → Nat) : ∑ id ∈ Finset.range (chunkIdLast + 1),
    ((neighbours.chunks id).map f).getD 0 = f firstPage + f largePage := by
  refine (Finset.sum_eq_add 1 2 (by decide) ?_ ?_ ?_).trans (by simp [neighbours])
  · intro id _ ne
    simp [neighbours, ne.1, ne.2]
  · intro off
    exact absurd (Finset.mem_range.2 (by decide)) off
  · intro off
    exact absurd (Finset.mem_range.2 (by decide)) off

theorem count_firstPage (hGVM : Nat) :
    firstPage.count (GmmChunk.isPrivateOf hGVM) = if hGVM = 2 then 1 else 0 := by
  split
  · subst hGVM
    decide +kernel
  · rename_i ne
    rw [GmmChunk.count, length_eq_zero_iff, filter_eq_nil_iff]
    intro i _
    by_cases first : i = 0 <;> simp [firstPage, first, GmmChunk.isPrivateOf, Ne.symm ne]

theorem count_largePage (hGVM : Nat) :
    largePage.count (GmmChunk.isPrivateOf hGVM) = if hGVM = 1 then 512 else 0 := by
  split
  · subst hGVM
    decide +kernel
  · rename_i ne
    rw [GmmChunk.count, length_eq_zero_iff, filter_eq_nil_iff]
    intro i _
    simp [largePage, GmmChunk.isPrivateOf, Ne.symm ne]

theorem neighbours_accounted : neighbours.Accounted where
  chunks id chunk here := by
    by_cases first : id = 1
    · subst first
      cases here
      exact ⟨by decide, firstPage_counted⟩
    · by_cases second : id = 2
      · subst second
        cases here
        exact ⟨by decide, largePage_counted⟩
      · simp [neighbours, first, second] at here
  lists pSet iList id := by
    constructor
    · intro mem
      by_cases private' : pSet = .privateX
      · by_cases last : iList = 31
        · simp only [neighbours, private', last, if_true, mem_singleton] at mem
          subst mem
          exact ⟨firstPage, rfl, by rw [private']; rfl, by decide, by rw [last]; rfl⟩
        · simp [neighbours, private', last] at mem
      · simp [neighbours, private'] at mem
    · rintro ⟨chunk, here, set, some, rfl⟩
      by_cases first : id = 1
      · subst first
        cases here
        cases set
        decide
      · by_cases second : id = 2
        · subst second
          cases here
          cases some
        · simp [neighbours, first, second] at here
  linked id chunk here := by
    by_cases first : id = 1
    · subst first
      cases here
      simp [firstPage]
    · by_cases second : id = 2
      · subst second
        cases here
        simp [largePage]
      · simp [neighbours, first, second] at here
  nodup pSet iList := by
    by_cases private' : pSet = .privateX
    · by_cases last : iList = 31 <;> simp [neighbours, private', last]
    · simp [neighbours, private']
  cFreePages pSet := by
    by_cases private' : pSet = .privateX
    · subst private'
      decide +kernel
    · simp [neighbours, private']
  cAllocatedPages := (sum_neighbours fun chunk => chunk.cPrivate + chunk.cShared).symm
  cPrivatePages hGVM := by
    rw [sum_neighbours, count_firstPage, count_largePage]
    simp only [neighbours]
    split <;> split <;> simp_all

/-! ### Isolation -/

/-- A call isolates the other VMs exactly if it does not free a large page in a chunk that
holds pages of theirs. -/
theorem serve_isolated_iff (handle : A < 2 ^ 16) (accounted : g.Accounted)
    (hosts : List HostResult) (call : GmmCall) :
    Isolated A g (call.serve A hosts g) ↔ ¬ call.Overreaches A g := by
  constructor
  · intro isolated loses
    cases call with
    | freeLargePage idPage =>
      obtain ⟨other, pfn, owner, foreign, page, gone⟩ := freeLargePage_loses loses
      have kept := isolated.pages owner other pfn foreign page
      rw [GmmCall.serve, gone] at kept
      cases kept
    | _ => exact loses
  · intro within
    have keeps := keeps_serve handle accounted.listed hosts call within
    refine ⟨?_, keeps.vms⟩
    intro B idPage pfn foreign page
    exact keeps.pages idPage pfn B foreign page

theorem serve_isolated_neighbours :
    Isolated 1 neighbours ((GmmCall.freeLargePage 1024).serve 1 [] neighbours) := by
  refine (serve_isolated_iff (by decide) neighbours_accounted [] (.freeLargePage 1024)).2 ?_
  rintro ⟨-, -, chunk, here, -, -, others⟩
  cases here
  apply others
  intro i pfn owner _ page
  cases page
  rfl

/-- A VM frees the chunk of another one by the id of a page. -/
theorem freeLargePage_not_isolated : ¬ ∀ (A : Nat) (g : Gmm) (hosts : List HostResult)
    (call : GmmCall), A < 2 ^ 16 → g.Accounted → Isolated A g (call.serve A hosts g) := by
  intro isolated
  have page := (isolated 1 neighbours [] (.freeLargePage 512) (by decide)
    neighbours_accounted).pages 2 512 pfnUnshareable (by decide) rfl
  have gone : ((GmmCall.freeLargePage 512).serve 1 [] neighbours).getPage 512 = none := by
    decide +kernel
  rw [gone] at page
  cases page

end Gmm

end VBox.Vmm
