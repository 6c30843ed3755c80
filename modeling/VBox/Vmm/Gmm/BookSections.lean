import VBox.Vmm.Gmm.Books

/-!
What each section of a call does to the books.
-/

namespace VBox.Vmm

open Function (update)
open VBox.Lib List
open GmmChunk (isPrivate isShared isPrivateOf ofKind)

namespace Gmm

variable {g g' : Gmm} {P n A idPage : Nat} {Q : Nat → Nat} {enmAccount : GmmAccount}

theorem getPage_setVm (g : Gmm) (hGVM : Nat) (vm : GmmPerVm) (idPage : Nat) :
    (g.setVm hGVM vm).getPage idPage = g.getPage idPage := rfl

theorem getPage_discharge (g : Gmm) (hGVM : Nat) (enmAccount : GmmAccount) (n idPage : Nat) :
    (g.discharge hGVM enmAccount n).getPage idPage = g.getPage idPage := rfl

/-- A section of an allocation leaves the books with what it still wants. -/
def Leaves (pending : Nat) (pendingOf : Nat → Nat) : Gmm × Outcome → Prop
  | (g, .done _) => g.Booked pending pendingOf
  | (g, .grow call) =>
      g.Booked (pending + call.left.length) (plus pendingOf call.hGVM call.left.length) ∧ CallOk call

/-- The VM has the chunk alone, and nobody has mapped it. -/
def OwnsWhole (g : Gmm) (hGVM id : Nat) : Prop :=
  ∀ chunk, g.chunks id = some chunk → chunk.cMappingsX = 0 ∧
    ∀ i, i < chunkNumPages → isPrivateOf hGVM (chunk.aPages i) = true

/-- Without a new chunk the chunks are the same. -/
theorem registerChunk_none (pSet : SetId) (hGVM : Nat) (none : (g.registerChunk pSet hGVM).2 = none) :
    (g.registerChunk pSet hGVM).1.chunks = g.chunks ∧
      (g.registerChunk pSet hGVM).1.vms = g.vms := by
  unfold registerChunk at none ⊢
  simp only at none ⊢
  split
  · exact ⟨allocateChunkId_chunks, allocateChunkId_vms⟩
  · rename_i id
    rw [if_neg id] at none
    split
    · exact ⟨allocateChunkId_chunks, allocateChunkId_vms⟩
    · rename_i fresh
      rw [fresh] at none
      cases none

/-- There are as many free pages as an allocation that scavenges wants. -/
theorem Arranged.enough (arranged : g.Arranged) {call : AllocCall} {rc : GmmRc}
    (may : g.mayScavenge call rc = true) : call.left.length ≤ g.freeUnbound := by
  unfold mayScavenge at may
  simp only [decide_eq_true_eq] at may
  obtain ⟨-, -, le⟩ := may
  rw [arranged.shelved.cFreePages, arranged.shelved.cFreePages] at le
  refine le.trans ((Nat.mod_le _ _).trans (Nat.add_le_add ?_ ?_))
  · exact Nat.mod_le _ _
  · exact Nat.mod_le _ _

namespace Booked

variable {call : AllocCall}

/-! ### Allocations -/

theorem allocated {p : Pick}
    (booked : g.Booked (P + call.left.length) (plus Q call.hGVM call.left.length)) (ok : CallOk call)
    (picked : Picked call.hGVM ⟨g, call.ids, call.left⟩ p) : Leaves P Q (Gmm.allocated call p) := by
  have booked' := @Booked.picked P call.hGVM Q ⟨g, call.ids, call.left⟩ _ booked picked
  unfold Gmm.allocated
  split
  · rename_i got
    rw [got, length_nil, plus_zero] at booked'
    exact booked'
  · obtain ⟨n, ids, left, -, -⟩ := picked.amount
    refine ⟨booked', ?_, ok.small, ok.handle⟩
    have sum := ok.sum
    simp only at ids left ⊢
    omega

theorem pickPages (booked : g.Booked (P + call.left.length) (plus Q call.hGVM call.left.length))
    (ok : CallOk call) : Leaves P Q (g.pickPages call) := by
  have rule := Picked.rule ok.handle
  unfold Gmm.pickPages
  simp only [booked.legacy, Bool.false_eq_true, if_false]
  split
  · exact booked.allocated ok (rule.inBoundMode ⟨g, call.ids, call.left⟩ booked.toArranged)
  · exact booked.allocated ok (rule.pickShared ⟨g, call.ids, call.left⟩ booked.toArranged)

theorem allocatePagesNew (booked : g.Booked P Q) (handle : A < 2 ^ 16) {descs : List Nat}
    (small : descs.length ≤ 2 ^ 64) : Leaves P Q (g.allocatePagesNew A enmAccount descs) := by
  unfold Gmm.allocatePagesNew
  split
  · exact (booked.chargePages A descs.length enmAccount).pickPages ⟨Nat.zero_add _, small, handle⟩
  · exact booked

theorem useChunk (booked : g.Booked (P + call.left.length) (plus Q call.hGVM call.left.length))
    (ok : CallOk call)
    (has : (g.registerChunk (g.setFor call.hGVM) call.hGVM).2 = none → g.StillHas call) :
    Leaves P Q (g.useChunk call) := by
  obtain ⟨arranged, counters, used, owned, -⟩ :=
    booked.toArranged.registerChunk (g.setFor call.hGVM) call.hGVM
  have registered := booked.same arranged counters used owned
  have lost : (g.registerChunk (g.setFor call.hGVM) call.hGVM).2 = none →
      (g.registerChunk (g.setFor call.hGVM) call.hGVM).1.StillHas call :=
    fun none => (has none).congr (registerChunk_none _ _ none).1
  unfold Gmm.useChunk
  generalize g.registerChunk (g.setFor call.hGVM) call.hGVM = r at *
  obtain ⟨g', id⟩ := r
  cases id with
  | none => exact registered.cleanUp ok (lost rfl)
  | some id =>
    simp only
    split
    · exact ⟨registered, ok⟩
    · rename_i chunk here
      exact registered.allocated ok ((Picked.rule ok.handle).chunk ⟨g', call.ids, call.left⟩ id
        chunk.hGVM chunk here arranged)

/-- An allocation that scavenges finds what it wants. -/
theorem withoutChunk {rc : GmmRc}
    (booked : g.Booked (P + call.left.length) (plus Q call.hGVM call.left.length))
    (ok : CallOk call) (has : g.mayScavenge call rc = false → g.StillHas call) :
    Leaves P Q (g.withoutChunk call rc) := by
  have rule := Picked.rule ok.handle
  unfold Gmm.withoutChunk
  split
  · rename_i may
    have got := Picked.scavenge ok.handle ⟨g, call.ids, call.left⟩ booked.toArranged
      (booked.toArranged.enough may)
    have picked := rule.ifMore (rule.indiscriminately .privateX ⟨g, call.ids, call.left⟩)
      (rule.indiscriminately .shared) booked.toArranged
    have booked' := @Booked.picked P call.hGVM Q ⟨g, call.ids, call.left⟩ _ booked picked
    rw [got, length_nil, plus_zero] at booked'
    exact booked'
  · rename_i not
    exact booked.cleanUp ok (has (Bool.eq_false_of_not_eq_true not))

theorem allocateChunkNew {host : HostResult}
    (booked : g.Booked (P + call.left.length) (plus Q call.hGVM call.left.length))
    (ok : CallOk call) (has : g.GivesUp call host → g.StillHas call) :
    Leaves P Q (g.allocateChunkNew call host) := by
  cases host with
  | memory => exact booked.useChunk ok has
  | failed rc => exact booked.withoutChunk ok has

theorem allocatePages (booked : g.Booked P Q) (handle : A < 2 ^ 16) (descs : List Nat) :
    Leaves P Q (g.allocatePages A enmAccount descs) := by
  unfold Gmm.allocatePages
  split
  · exact booked
  · rename_i accepted
    split
    · apply booked.allocatePagesNew handle
      obtain ⟨-, small⟩ := not_or.1 accepted
      omega
    · exact booked

/-! ### Pages that are freed -/

section

variable (booked : g.Booked P Q)

include booked

theorem discharge (A n : Nat) (enmAccount : GmmAccount) : (g.discharge A enmAccount n).Booked P Q :=
  booked.setVm A rfl

theorem setDuplicatePages (n : Nat) : (g.setDuplicatePages n).Booked P Q :=
  booked.same (booked.toArranged.setDuplicatePages n) (.of_vms rfl rfl rfl) (used_congr rfl)
    (owned_congr rfl)

/-- A private page is freed and its VM has one less. -/
theorem freePrivatePage {pfn : Nat} (page : g.getPage idPage = some (.priv pfn A)) :
    ((g.setPrivatePages A (subW 64 (g.vms A).cPrivatePages 1)).freePrivatePage A idPage).Booked
      P Q := by
  have arranged : (g.setPrivatePages A (subW 64 (g.vms A).cPrivatePages 1)).Arranged :=
    booked.toArranged.setVm A _
  have used : (g.setPrivatePages A (subW 64 (g.vms A).cPrivatePages 1)).used = g.used :=
    used_congr rfl
  have owned := fun h => @owned_congr g (g.setPrivatePages A (subW 64 (g.vms A).cPrivatePages 1))
    rfl h
  have freed := arranged.freePrivatePage A page
  have one := freed.used
  rw [used] at one
  refine ⟨freed.arranged, ?_, ?_⟩
  · rw [freed.total]
    apply subW_total _ (by decide)
    have before := booked.cAllocatedPages
    rw [← one] at before
    refine before.trans ?_
    congr 1
    omega
  · intro h
    have less := freed.owned h
    have before := booked.cPrivatePages h
    rw [owned h] at less
    rw [← less] at before
    simp only [ofKind, isPrivateOf, decide_eq_true_eq] at before
    rw [freed.cPrivatePages]
    by_cases eq : h = A
    · subst eq
      rw [if_pos rfl] at before
      have now : ((g.setPrivatePages h (subW 64 (g.vms h).cPrivatePages 1)).vms h).cPrivatePages =
          subW 64 (g.vms h).cPrivatePages 1 := by
        simp [setPrivatePages]
      rw [now]
      apply subW_total _ (by decide)
      refine before.trans ?_
      congr 1
      omega
    · rw [if_neg (Ne.symm eq), Nat.add_zero] at before
      have now : ((g.setPrivatePages A (subW 64 (g.vms A).cPrivatePages 1)).vms h).cPrivatePages =
          (g.vms h).cPrivatePages := by
        simp [setPrivatePages, eq]
      rw [now]
      exact before

/-- A page in use gets another number of references. -/
theorem setShared (left : Nat) {pfn cRefs : Nat}
    (page : g.getPage idPage = some (.shared pfn cRefs)) :
    (g.setPage idPage (.shared pfn left)).Booked P Q ∧
      (g.setPage idPage (.shared pfn left)).getPage idPage = some (.shared pfn left) := by
  have busy : ∀ iNext, GmmPage.shared pfn left ≠ .free iNext := fun _ => GmmPage.noConfusion
  obtain ⟨arranged, counters, used, owned⟩ := booked.toArranged.setPage page
    (fun _ => GmmPage.noConfusion) busy rfl rfl (fun _ => rfl)
  refine ⟨booked.same arranged counters used owned, ?_⟩
  cases chunk : g.chunks (idPage / chunkNumPages) with
  | none =>
    rw [getPage, chunk] at page
    cases page
  | some stored => simp [getPage, Gmm.setPage, chunk]

theorem freeSharedPage (A : Nat) {pfn cRefs : Nat}
    (page : g.getPage idPage = some (.shared pfn cRefs)) :
    (g.freeSharedPage A idPage).Booked P Q := by
  have freed := booked.toArranged.freeSharedPage A page
  have one := freed.used
  refine ⟨freed.arranged, ?_, ?_⟩
  · rw [freed.total]
    apply subW_total _ (by decide)
    have before := booked.cAllocatedPages
    rw [← one] at before
    refine before.trans ?_
    congr 1
    omega
  · intro h
    have same := freed.owned h
    have before := booked.cPrivatePages h
    rw [← same] at before
    rw [freed.cPrivatePages]
    exact before

/-- A reference less to a shared page, which is freed with its last one. -/
theorem releaseSharedPage (A : Nat) {pfn cRefs : Nat}
    (page : g.getPage idPage = some (.shared pfn cRefs)) :
    (g.releaseSharedPage A idPage pfn cRefs).Booked P Q := by
  have counted : (g.setVm A { g.vms A with
      cSharedPages := subW 64 (g.vms A).cSharedPages 1 }).Booked P Q := booked.setVm A rfl
  have there := (getPage_setVm g A { g.vms A with
    cSharedPages := subW 64 (g.vms A).cSharedPages 1 } idPage).trans page
  obtain ⟨put, here⟩ := counted.setShared (subW 16 cRefs 1) there
  unfold Gmm.releaseSharedPage
  simp only
  split
  · exact put.freeSharedPage A here
  · exact put.setDuplicatePages _

theorem freeLoop (A : Nat) (ids : List Nat) (iPage : Nat) :
    (freeLoop A ids iPage g).1.Booked P Q := by
  induction ids generalizing g iPage with
  | nil => exact booked
  | cons idPage ids ih =>
    unfold Gmm.freeLoop
    split
    · exact booked
    · rename_i pfn owner page
      split
      · rename_i mine
        subst mine
        exact ih (booked.freePrivatePage page) _
      · exact booked
    · rename_i pfn cRefs page
      exact ih (booked.releaseSharedPage A page) _
    · exact booked

theorem freePages (A : Nat) (enmAccount : GmmAccount) (ids : List Nat) :
    (g.freePages A enmAccount ids).1.Booked P Q := by
  unfold Gmm.freePages
  split
  · exact booked
  · split
    · exact booked
    · exact (booked.freeLoop A ids 0).discharge A _ enmAccount

end

/-! ### Handy pages -/

section

variable (booked : g.Booked P Q)

include booked

theorem updatePrivate (A : Nat) (update : HandyUpdate) :
    (g.updatePrivate A update).1.Booked P Q := by
  unfold Gmm.updatePrivate
  split
  · exact booked
  · split
    · exact booked
    · rename_i pfn owner page
      split
      · have put : ∀ pfn', (g.setPage update.idPage (.priv pfn' owner)).Booked P Q := by
          intro pfn'
          have busy : ∀ iNext, GmmPage.priv pfn' owner ≠ .free iNext := fun _ => GmmPage.noConfusion
          obtain ⟨arranged, counters, used, owned⟩ := booked.toArranged.setPage page
            (fun _ => GmmPage.noConfusion) busy rfl rfl (fun _ => rfl)
          exact booked.same arranged counters used owned
        exact put _
      · exact booked
    · exact booked

theorem updateShared (A : Nat) (update : HandyUpdate) : (g.updateShared A update).1.Booked P Q := by
  unfold Gmm.updateShared
  split
  · exact booked
  · split
    · exact booked
    · rename_i pfn cRefs page
      have there := (getPage_discharge g A .base 1 update.idSharedPage).trans page
      have discharged := booked.discharge A 1 .base
      generalize g.discharge A .base 1 = g1 at *
      simp only
      exact discharged.releaseSharedPage A there
    · exact booked

theorem updateHandy (A : Nat) (updates : List HandyUpdate) :
    (updateHandy A updates g).1.Booked P Q := by
  induction updates generalizing g with
  | nil => exact booked
  | cons update updates ih =>
    have privates := booked.updatePrivate A update
    unfold Gmm.updateHandy
    split
    · rename_i g' eq
      rw [eq] at privates
      have shared := privates.updateShared A update
      split
      · rename_i g'' eq'
        rw [eq'] at shared
        exact ih shared
      · rename_i g'' rc _ eq'
        rw [eq'] at shared
        exact shared
    · rename_i g' rc _ eq
      rw [eq] at privates
      exact privates

theorem allocateHandyPages (handle : A < 2 ^ 16) (updates : List HandyUpdate) {cPagesToAlloc : Nat}
    (small : cPagesToAlloc < 2 ^ 32) :
    Leaves P Q (g.allocateHandyPages A updates cPagesToAlloc) := by
  have updated := booked.updateHandy A updates
  unfold Gmm.allocateHandyPages
  split
  · exact booked
  · split
    · split
      · rename_i g' eq
        rw [eq] at updated
        split
        · exact updated
        · apply updated.allocatePagesNew handle
          rw [length_replicate]
          omega
      · rename_i g' rc _ eq
        rw [eq] at updated
        exact updated
    · exact booked

end

/-! ### Large pages -/

/-- All pages of a new chunk are taken at once. -/
theorem allocateLargePageChunk (booked : g.Booked P Q) (handle : A < 2 ^ 16) (host : HostResult) :
    (g.allocateLargePageChunk A host).1.Booked P Q := by
  cases host with
  | failed rc => exact booked
  | memory =>
    obtain ⟨arranged, counters, used, owned, full⟩ := booked.toArranged.registerChunk (g.setFor A) A
    have registered := booked.same arranged counters used owned
    unfold Gmm.allocateLargePageChunk
    simp only
    generalize g.registerChunk (g.setFor A) A = r at *
    obtain ⟨g1, id⟩ := r
    cases id with
    | none => exact registered
    | some id =>
      simp only at arranged registered full ⊢
      split
      · exact registered
      · rename_i chunk here
        obtain ⟨known, counted, -⟩ := arranged.chunks id chunk here
        have whole := full id chunk rfl here
        have counted' : { chunk with pSet := none }.Counted := counted.congr rfl rfl rfl rfl rfl
        obtain ⟨n, taken, -, left, stop⟩ := GmmChunk.takePages_taken handle id []
          (replicate chunkNumPages nilHCPhys) counted'
        generalize Pick.takePages A id [] (replicate chunkNumPages nilHCPhys)
          { chunk with pSet := none } = t at *
        obtain ⟨after, ids, left'⟩ := t
        have cFree := taken.cFree
        rw [length_replicate] at left
        simp only at cFree left stop taken
        have all : n = chunkNumPages ∧ after.cFree = 0 := by
          by_cases more : left' = []
          · rw [more, length_nil] at left
            omega
          · have none := stop more
            omega
        obtain ⟨rfl, none⟩ := all
        obtain ⟨arranged', chunks, counters'⟩ := arranged.relink .privateX here rfl
          taken.counted taken.pSet
        have unlinked : ∀ (n : Gmm) s, n.linkChunk id after s = n := by
          intro n s
          unfold Gmm.linkChunk
          rw [none, if_neg (Nat.lt_irrefl 0)]
        simp only [unlinked] at arranged' chunks counters' ⊢
        generalize (g1.unlinkChunk id chunk).setChunk id after = g2 at *
        have used' : g2.used = g1.used + chunkNumPages := by
          have sums := total_update chunks known fun chunk => chunk.cPrivate + chunk.cShared
          have more := taken.used
          rw [here] at sums
          simp only [Option.map_some, Option.getD_some] at sums more
          simp only [Gmm.used]
          omega
        have owned' : ∀ h, g2.owned h = g1.owned h + if h = A then chunkNumPages else 0 := by
          intro h
          have sums := total_update chunks known (·.count (isPrivateOf h))
          have more : after.count (isPrivateOf h) =
            chunk.count (isPrivateOf h) + if h = A then chunkNumPages else 0 := taken.owned h
          have pages : { after with pSet := linkedIn after .privateX }.count (isPrivateOf h) =
            after.count (isPrivateOf h) := rfl
          rw [here] at sums
          simp only [Option.map_some, Option.getD_some] at sums
          rw [pages] at sums
          simp only [Gmm.owned]
          omega
        have sum := registered.cAllocatedPages
        have each := registered.cPrivatePages
        apply charged arranged' .base (s := fun h => g1.owned h + Q h)
          (counters'.cAllocatedPages.trans sum)
        · rw [used']
          omega
        · intro h
          rw [counters'.cPrivatePages, each]
        · intro h
          rw [owned', plus]
          omega

/-- A large page that is freed takes its chunk along. -/
theorem freeLargePage (booked : g.Booked P Q) (A : Nat)
    (whole : ∀ pfn owner, g.getPage idPage = some (.priv pfn owner) →
      chunkNumPages ≤ (g.vms A).allocated .base → g.OwnsWhole A (idPage / chunkNumPages)) :
    (g.freeLargePage A idPage).1.Booked P Q := by
  unfold Gmm.freeLargePage
  rw [booked.legacy, if_neg Bool.false_ne_true]
  split
  · exact booked
  · rename_i enough
    split
    · exact booked
    · rename_i chunk here
      split
      · rename_i pfn owner page
        have found : g.getPage idPage = some (.priv pfn owner) := by
          rw [getPage, here, ← page]
          rfl
        obtain ⟨unmapped, mine⟩ := whole pfn owner found (not_lt.1 enough) chunk here
        obtain ⟨-, counted, -⟩ := booked.chunks _ chunk here
        obtain ⟨arranged, counters, -, used, owned⟩ := booked.toArranged.freeChunk here unmapped
        have kind : ∀ i, i < chunkNumPages → ∃ pfn, chunk.aPages i = .priv pfn A := by
          intro i bound
          have is := mine i bound
          cases page' : chunk.aPages i with
          | priv pfn owner =>
            rw [page'] at is
            exact ⟨pfn, by rw [of_decide_eq_true is]⟩
          | shared pfn cRefs =>
            rw [page'] at is
            cases is
          | free iNext =>
            rw [page'] at is
            cases is
        have privates : chunk.cPrivate = chunkNumPages := by
          rw [counted.cPrivate]
          apply GmmChunk.count_of_all
          intro i bound
          obtain ⟨pfn, page'⟩ := kind i bound
          rw [page']
          rfl
        have shared : chunk.cShared = 0 := by
          rw [counted.cShared]
          apply GmmChunk.count_of_none
          intro i bound
          obtain ⟨pfn, page'⟩ := kind i bound
          rw [page']
          rfl
        have each : ∀ h, chunk.count (isPrivateOf h) = if h = A then chunkNumPages else 0 := by
          intro h
          by_cases eq : h = A
          · rw [if_pos eq, eq]
            exact GmmChunk.count_of_all mine
          · rw [if_neg eq]
            apply GmmChunk.count_of_none
            intro i bound
            obtain ⟨pfn, page'⟩ := kind i bound
            rw [page']
            exact decide_eq_false (Ne.symm eq)
        rw [privates, shared, Nat.add_zero] at used
        generalize g.freeChunk (idPage / chunkNumPages) chunk = g' at *
        have used' : (g'.dischargePages A .base chunkNumPages chunkNumPages).used = g'.used :=
          used_congr rfl
        refine ⟨arranged.dischargePages, ?_, ?_⟩
        · rw [dischargePages_cAllocatedPages, used']
          apply subW_total _ (by decide)
          rw [counters.cAllocatedPages, booked.cAllocatedPages, ← used]
          congr 1
          omega
        · intro h
          have owned' : (g'.dischargePages A .base chunkNumPages chunkNumPages).owned h =
            g'.owned h := owned_congr rfl h
          have less := owned h
          rw [each] at less
          rw [dischargePages_cPrivatePages, counters.cPrivatePages, counters.cPrivatePages, owned',
            booked.cPrivatePages, booked.cPrivatePages]
          by_cases eq : h = A
          · subst eq
            rw [if_pos rfl] at less ⊢
            apply subW_total _ (by decide)
            rw [← less]
            congr 1
            omega
          · rw [if_neg eq, Nat.add_zero] at less
            rw [if_neg eq, less]
      · exact booked

/-! ### What is no allocation -/

theorem balloonedPages (booked : g.Booked P Q) (A : Nat) (enmAction : BalloonAction)
    (cBalloonedPages : Nat) : (g.balloonedPages A enmAction cBalloonedPages).1.Booked P Q := by
  have set : ∀ total vm, (g.setBallooned A total vm).Booked P Q := by
    intro total vm
    refine booked.same (booked.toArranged.congr rfl rfl rfl) ⟨rfl, rfl, ?_⟩ (used_congr rfl)
      (owned_congr rfl)
    intro h
    by_cases eq : h = A
    · simp [setBallooned, eq]
    · simp [setBallooned, eq]
  unfold Gmm.balloonedPages
  simp only
  split
  · exact booked
  · cases enmAction with
    | inflate =>
      simp only
      split
      · exact set _ _
      · exact booked
    | deflate =>
      simp only
      split
      · exact set _ _
      · exact booked
    | reset => exact set _ _

/-- A chunk is mapped, or a mapping goes. -/
theorem setMappings (booked : g.Booked P Q) {id : Nat} {chunk : GmmChunk} (cMappingsX : Nat)
    (here : g.chunks id = some chunk) : (g.setChunk id { chunk with cMappingsX }).Booked P Q := by
  obtain ⟨known, counted, linked⟩ := booked.chunks id chunk here
  have chunks := setChunk_chunks g id { chunk with cMappingsX }
  have shelved : (g.setChunk id { chunk with cMappingsX }).Shelved :=
    booked.shelved.setChunk ((shelf_of_chunk here).trans rfl)
  refine booked.same (booked.toArranged.change known shelved rfl chunks ?_) (.setChunk g id _) ?_ ?_
  · intro after eq
    cases eq
    exact ⟨counted.congr rfl rfl rfl rfl rfl, linked⟩
  · have sums := total_update chunks known fun chunk => chunk.cPrivate + chunk.cShared
    rw [here] at sums
    exact Nat.add_right_cancel sums
  · intro h
    have sums := total_update chunks known (·.count (isPrivateOf h))
    rw [here] at sums
    exact Nat.add_right_cancel sums

end Booked

end Gmm

end VBox.Vmm
