import VBox.Vmm.Gmm.Frame
import VBox.Vmm.Gmm.Arranged

/-!
New chunks, pages that are freed and chunks that are given back: what they do to the totals.
-/

namespace VBox.Vmm

open Function (update)
open VBox.Lib
open GmmChunk (isPrivate isShared isPrivateOf ofKind)

namespace Gmm

variable {g g' : Gmm} {id iPage idPage hGVM : Nat}

/-! ### Chunks that come and go -/

theorem SameCounters.allocateChunkId (g : Gmm) : SameCounters g g.allocateChunkId.1 := by
  unfold Gmm.allocateChunkId
  simp only
  split <;> exact .of_vms rfl rfl rfl

theorem allocateChunkId_sets (g : Gmm) : g.allocateChunkId.1.sets = g.sets := by
  unfold allocateChunkId
  simp only
  split <;> rfl

theorem allocateChunkId_le (g : Gmm) : g.allocateChunkId.2 ∈ chunkIds := by
  have below : ∀ first id, first ≤ chunkIdLast + 1 → g.nextClear first = some id →
      id ∈ chunkIds := by
    intro first id le clear
    have mem := List.mem_range'.1 (List.mem_of_find?_eq_some clear)
    obtain ⟨i, lt, rfl⟩ := mem
    rw [mem_chunkIds]
    omega
  unfold allocateChunkId
  simp only
  split
  · exact mem_chunkIds.2 (Nat.zero_le _)
  · rename_i id found
    split at found
    · rcases Option.or_eq_some_iff.1 found with clear | ⟨-, clear⟩
      · exact below _ _ (by omega) clear
      · exact below _ _ (Nat.zero_le _) clear
    · exact below _ _ (Nat.zero_le _) found

/-- A new chunk is on its list, and adds nothing to the totals. -/
theorem Arranged.registerChunk (arranged : g.Arranged) (pSet : SetId) (hGVM : Nat) :
    (g.registerChunk pSet hGVM).1.Arranged ∧ SameCounters g (g.registerChunk pSet hGVM).1 ∧
    (g.registerChunk pSet hGVM).1.used = g.used ∧
    (∀ h, (g.registerChunk pSet hGVM).1.owned h = g.owned h) ∧
    ∀ id chunk, (g.registerChunk pSet hGVM).2 = some id →
      (g.registerChunk pSet hGVM).1.chunks id = some chunk → chunk.cFree = chunkNumPages := by
  have counters := SameCounters.allocateChunkId g
  have chunks : g.allocateChunkId.1.chunks = g.chunks := allocateChunkId_chunks
  have numbered := arranged.congr counters.legacy (allocateChunkId_sets g) chunks
  have known := allocateChunkId_le g
  unfold Gmm.registerChunk
  generalize g.allocateChunkId = r at *
  obtain ⟨n, id⟩ := r
  simp only at counters chunks numbered known ⊢
  split
  · exact ⟨numbered, counters, used_congr chunks, owned_congr chunks, fun _ _ eq => nomatch eq⟩
  · split
    · exact ⟨numbered, counters, used_congr chunks, owned_congr chunks, fun _ _ eq => nomatch eq⟩
    · rename_i fresh
      have empty : n.shelf id = (newChunk hGVM).shelf := by
        rw [shelf, fresh]
        rfl
      have here : (n.setChunk id (newChunk hGVM)).chunks id = some (newChunk hGVM) := by
        rw [setChunk_chunks, Function.update_self]
      have counted := GmmChunk.newChunk_counted hGVM
      have all : ((n.setChunk id (newChunk hGVM)).linkChunk id (newChunk hGVM) pSet).chunks =
          update n.chunks id
            (some { newChunk hGVM with pSet := linkedIn (newChunk hGVM) pSet }) := by
        rw [linkChunk_chunks_eq pSet here rfl, setChunk_chunks, Function.update_idem]
      have more := (SameCounters.setChunk n id (newChunk hGVM)).trans
        (.linkChunk _ id (newChunk hGVM) pSet)
      have shelved := (numbered.shelved.setChunk empty).linkChunk known here rfl counted.cFree_le pSet
      refine ⟨numbered.change known shelved more.legacy all ?_, counters.trans more, ?_, ?_, ?_⟩
      · intro chunk eq
        cases eq
        exact ⟨counted.congr rfl rfl rfl rfl rfl, linkedIn_iff _ pSet⟩
      · have sums := total_update all known fun chunk => chunk.cPrivate + chunk.cShared
        have none : (newChunk hGVM).cPrivate + (newChunk hGVM).cShared = 0 := rfl
        rw [fresh] at sums
        simp only [Option.map_none, Option.getD_none, Option.map_some, Option.getD_some] at sums
        rw [← used_congr chunks]
        simp only [used]
        omega
      · intro h
        have sums := total_update all known (·.count (isPrivateOf h))
        have none : { newChunk hGVM with pSet := linkedIn (newChunk hGVM) pSet }.count
            (isPrivateOf h) = 0 :=
          GmmChunk.count_of_free (fun i _ => ⟨_, rfl⟩) fun _ => rfl
        rw [fresh] at sums
        simp only [Option.map_none, Option.getD_none, Option.map_some, Option.getD_some] at sums
        rw [none] at sums
        rw [← owned_congr chunks h]
        simp only [owned]
        omega
      · intro i chunk eq here
        cases eq
        simp only [all, Function.update_self] at here
        cases here
        rfl

/-- The pages of a chunk go with it. -/
theorem Arranged.freeChunk (arranged : g.Arranged) {chunk : GmmChunk}
    (here : g.chunks id = some chunk) (unmapped : chunk.cMappingsX = 0) :
    (g.freeChunk id chunk).Arranged ∧ SameCounters g (g.freeChunk id chunk) ∧
    (g.freeChunk id chunk).chunks = update g.chunks id none ∧
    (g.freeChunk id chunk).used + (chunk.cPrivate + chunk.cShared) = g.used ∧
    ∀ h, (g.freeChunk id chunk).owned h + chunk.count (isPrivateOf h) = g.owned h := by
  obtain ⟨known, -, -⟩ := arranged.chunks id chunk here
  obtain ⟨left, off, chunks⟩ := unlinkChunk_chunks here rfl
  have unlinked := arranged.shelved.unlinkChunk here rfl
  have counters := SameCounters.unlinkChunk g id chunk
  have eq : g.freeChunk id chunk = { g.unlinkChunk id chunk with
      chunks := update (g.unlinkChunk id chunk).chunks id none
      bmChunkId := update (g.unlinkChunk id chunk).bmChunkId id false } := by
    unfold Gmm.freeChunk
    rw [unmapped, if_neg (fun ne => ne rfl)]
  have gone : (g.freeChunk id chunk).chunks = update g.chunks id none := by
    rw [eq]
    simp only [chunks, Function.update_idem]
  have sets : (g.freeChunk id chunk).sets = (g.unlinkChunk id chunk).sets := by rw [eq]
  have counters' : SameCounters g (g.freeChunk id chunk) := by
    rw [eq]
    exact ⟨counters.legacy, counters.cAllocatedPages, counters.cPrivatePages⟩
  have shelf : (g.freeChunk id chunk).shelf = (g.unlinkChunk id chunk).shelf := by
    rw [shelf_update gone, shelf_update chunks, Option.bind_some, GmmChunk.shelf_none off]
    rfl
  refine ⟨arranged.change known (unlinked.congr sets shelf) counters'.legacy gone
    (fun _ eq => nomatch eq), counters', gone, ?_, ?_⟩
  · have sums := total_update gone known fun chunk => chunk.cPrivate + chunk.cShared
    rw [here] at sums
    simp only [Option.map_some, Option.getD_some, Option.map_none, Option.getD_none,
      Nat.add_zero] at sums
    exact sums
  · intro h
    have sums := total_update gone known (·.count (isPrivateOf h))
    rw [here] at sums
    simp only [Option.map_some, Option.getD_some, Option.map_none, Option.getD_none,
      Nat.add_zero] at sums
    exact sums

/-! ### Pages that are freed -/

/-- A page in use has become free, and the counters that are kept by the caller are the same. -/
structure FreedPage (idPage : Nat) (page : GmmPage) (g g' : Gmm) : Prop where
  arranged : g'.Arranged
  counters : SameCounters g g'
  used : g'.used + 1 = g.used
  owned : ∀ h, g'.owned h + ofKind (isPrivateOf h) page = g.owned h
  others : ∀ other pfn owner, other ≠ idPage → g.getPage other = some (.priv pfn owner) →
    g'.getPage other = some (.priv pfn owner)

/-- A chunk counts the page that has been put on its free list. -/
theorem Arranged.countFreed (arranged : g.Arranged) {stored : GmmChunk} (chunk : GmmChunk) (hGVM : Nat)
    (here : g.chunks id = some stored) (pSet : chunk.pSet = stored.pSet)
    (cFree : chunk.cFree = stored.cFree)
    (counted : { chunk with cFree := chunk.cFree + 1 }.Counted) :
    ((g.setChunk id chunk).countFreed hGVM id chunk).Arranged ∧
    SameCounters g ((g.setChunk id chunk).countFreed hGVM id chunk) ∧
    ∃ set, ((g.setChunk id chunk).countFreed hGVM id chunk).chunks = update g.chunks id
      (some { chunk with cFree := chunk.cFree + 1, pSet := set }) := by
  obtain ⟨known, -, linked⟩ := arranged.chunks id stored here
  have fits := counted.cFree_le
  have more : addW 16 chunk.cFree 1 = chunk.cFree + 1 := addW_of_lt (by
    simp only [chunkNumPages] at fits
    omega)
  have shelf : chunk.shelf = stored.shelf := by
    rw [GmmChunk.shelf, GmmChunk.shelf, pSet, cFree]
  have put := arranged.shelved.setChunk ((shelf_of_chunk here).trans shelf.symm)
  have there : (g.setChunk id chunk).chunks id = some chunk := by
    rw [setChunk_chunks, Function.update_self]
  unfold Gmm.countFreed
  simp only [more]
  split
  · obtain ⟨shelved, chunks, counters⟩ := put.relink known
      { chunk with cFree := chunk.cFree + 1, pSet := none }
      (if g.fBoundMemoryMode then .vm hGVM else if chunk.cShared ≠ 0 then .shared else .privateX)
      there rfl fits rfl
    have chunks' := chunks
    rw [setChunk_chunks, Function.update_idem] at chunks'
    have mode : (((g.setChunk id chunk).unlinkChunk id chunk).setChunk id
        { chunk with cFree := chunk.cFree + 1, pSet := none }).fBoundMemoryMode =
        g.fBoundMemoryMode := by
      unfold Gmm.unlinkChunk
      split <;> rfl
    unfold selectSetAndLinkChunk
    rw [mode]
    refine ⟨arranged.change known shelved counters.legacy chunks' ?_,
      (SameCounters.setChunk g id chunk).trans counters, _, chunks'⟩
    intro after eq
    cases eq
    exact ⟨counted.congr rfl rfl rfl rfl rfl, linkedIn_iff _ _⟩
  · rename_i same
    obtain ⟨some, list⟩ := not_or.1 same
    rw [not_not] at list
    split
    · rename_i off
      rw [← pSet, off, ← cFree] at linked
      exact absurd rfl (linked.1 (Nat.pos_of_ne_zero some))
    · rename_i s on
      have shelved := put.countOne { chunk with cFree := chunk.cFree + 1 } there on on rfl
        fits list.symm
      have chunks : (((g.setChunk id chunk).setChunk id { chunk with cFree := chunk.cFree + 1 }).setSet
          s { (g.setChunk id chunk).sets s with
            cFreePages := addW 64 ((g.setChunk id chunk).sets s).cFreePages 1 }).chunks =
          update g.chunks id (Option.some { chunk with cFree := chunk.cFree + 1, pSet := chunk.pSet }) := by
        rw [setSet_chunks, setChunk_chunks, setChunk_chunks, Function.update_idem]
      refine ⟨arranged.change known shelved rfl chunks ?_, .of_vms rfl rfl rfl, _, chunks⟩
      intro after eq
      cases eq
      refine ⟨counted, ⟨fun _ => ?_, fun _ => Nat.succ_pos _⟩⟩
      simp only [on]
      exact Option.some_ne_none s

/-- An empty chunk that goes takes no page along. -/
theorem Arranged.giveBack (arranged : g.Arranged) (id : Nat) :
    (g.giveBack id).Arranged ∧ SameCounters g (g.giveBack id) ∧ (g.giveBack id).used = g.used ∧
    (∀ h, (g.giveBack id).owned h = g.owned h) ∧
    ∀ idPage pfn owner, g.getPage idPage = some (.priv pfn owner) →
      (g.giveBack id).getPage idPage = some (.priv pfn owner) := by
  have still : g.Arranged ∧ SameCounters g g ∧ g.used = g.used ∧ (∀ h, g.owned h = g.owned h) ∧
      ∀ idPage pfn owner, g.getPage idPage = some (.priv pfn owner) →
        g.getPage idPage = some (.priv pfn owner) :=
    ⟨arranged, .refl g, rfl, fun _ => rfl, fun _ _ _ page => page⟩
  unfold Gmm.giveBack
  split
  · exact still
  · rename_i chunk here
    split
    · rename_i full
      by_cases mapped : chunk.cMappingsX = 0
      · obtain ⟨-, counted, -⟩ := arranged.chunks id chunk here
        obtain ⟨used, owned⟩ := counted.empty full.1
        obtain ⟨arranged', counters, gone, used', owned'⟩ := arranged.freeChunk here mapped
        refine ⟨arranged', counters, ?_, ?_, ?_⟩
        · rw [used] at used'
          exact used'
        · intro h
          have sums := owned' h
          rw [owned h] at sums
          exact sums
        · intro idPage pfn owner page
          rw [getPage, gone]
          by_cases eq : idPage / chunkNumPages = id
          · rw [getPage, eq, here] at page
            obtain ⟨iNext, free⟩ := counted.freeListed.free_of_full full.1 (index_lt idPage)
            cases free.symm.trans (Option.some.inj page)
          · rw [Function.update_of_ne eq]
            exact page
      · have kept : g.freeChunk id chunk = g := by
          unfold Gmm.freeChunk
          rw [if_pos mapped]
        rw [kept]
        exact still
    · exact still

/-- `gmmR0FreePageWorker`, of a chunk that does not count the page as used any more. -/
theorem Arranged.freePageWorker (arranged : g.Arranged) {stored : GmmChunk} (hGVM : Nat)
    (cPrivate cShared : Nat) (here : g.chunks id = some stored) (bound : iPage < chunkNumPages)
    (busy : ∀ iNext, stored.aPages iPage ≠ .free iNext)
    (privates : cPrivate + ofKind isPrivate (stored.aPages iPage) = stored.cPrivate)
    (shared : cShared + ofKind isShared (stored.aPages iPage) = stored.cShared) :
    FreedPage (id * chunkNumPages + iPage) (stored.aPages iPage) g
      (g.freePageWorker hGVM id iPage { stored with cPrivate, cShared }) := by
  obtain ⟨known, counted, -⟩ := arranged.chunks id stored here
  set chunk : GmmChunk := { stored with
    cPrivate, cShared
    aPages := update stored.aPages iPage (.free stored.iFreeHead)
    iFreeHead := iPage } with def'
  have counted' : { chunk with cFree := chunk.cFree + 1 }.Counted :=
    counted.freePage bound busy rfl rfl rfl privates shared
  obtain ⟨freed, counters, set, chunks⟩ := arranged.countFreed chunk hGVM here rfl rfl counted'
  have eq : g.freePageWorker hGVM id iPage { stored with cPrivate, cShared } =
    ((g.setChunk id chunk).countFreed hGVM id chunk).giveBack id := rfl
  rw [eq]
  generalize (g.setChunk id chunk).countFreed hGVM id chunk = g1 at *
  obtain ⟨given, counters', used', owned', pages'⟩ := freed.giveBack id
  have one : ofKind isPrivate (stored.aPages iPage) + ofKind isShared (stored.aPages iPage) = 1 := by
    cases page : stored.aPages iPage with
    | priv pfn owner => rfl
    | shared pfn cRefs => rfl
    | free iNext => exact absurd page (busy iNext)
  refine ⟨given, counters.trans counters', ?_, ?_, ?_⟩
  · have sums := total_update chunks known fun chunk => chunk.cPrivate + chunk.cShared
    rw [here] at sums
    simp only [Option.map_some, Option.getD_some, def'] at sums
    rw [used', used, used]
    omega
  · intro h
    have sums := total_update chunks known (·.count (isPrivateOf h))
    have count := @GmmChunk.count_update stored
      { chunk with cFree := chunk.cFree + 1, pSet := set } iPage _ rfl bound (isPrivateOf h)
    have free : ofKind (isPrivateOf h) (.free stored.iFreeHead) = 0 := rfl
    rw [here] at sums
    simp only [Option.map_some, Option.getD_some] at sums
    rw [free] at count
    rw [owned', owned, owned]
    omega
  · intro other pfn owner ne page
    apply pages'
    rw [getPage, chunks]
    by_cases same : other / chunkNumPages = id
    · rw [getPage, same, here] at page
      have index : other % chunkNumPages ≠ iPage := by
        intro index
        apply ne
        rw [← same, ← index, number_eq]
      rw [same, Function.update_self]
      simp only [Option.map_some, def', Function.update_of_ne index]
      exact page
    · rw [Function.update_of_ne same]
      exact page

/-- A page in use has become free, and the total is set. -/
structure FreedOne (idPage : Nat) (page : GmmPage) (cAllocatedPages : Nat) (g g' : Gmm) : Prop where
  arranged : g'.Arranged
  total : g'.cAllocatedPages = cAllocatedPages
  cPrivatePages : ∀ h, (g'.vms h).cPrivatePages = (g.vms h).cPrivatePages
  used : g'.used + 1 = g.used
  owned : ∀ h, g'.owned h + ofKind (isPrivateOf h) page = g.owned h
  others : ∀ other pfn owner, other ≠ idPage → g.getPage other = some (.priv pfn owner) →
    g'.getPage other = some (.priv pfn owner)

theorem Arranged.freePrivatePage (arranged : g.Arranged) (hGVM : Nat) {pfn owner : Nat}
    (page : g.getPage idPage = some (.priv pfn owner)) :
    FreedOne idPage (.priv pfn owner) (subW 64 g.cAllocatedPages 1) g
      (g.freePrivatePage hGVM idPage) := by
  cases here : g.chunks (idPage / chunkNumPages) with
  | none =>
    rw [getPage, here] at page
    cases page
  | some stored =>
    have at' : stored.aPages (idPage % chunkNumPages) = .priv pfn owner := by
      rw [getPage, here] at page
      exact Option.some.inj page
    obtain ⟨-, counted, -⟩ := arranged.chunks _ stored here
    have count := @GmmChunk.count_update stored
      { stored with aPages := update stored.aPages (idPage % chunkNumPages) (.free 0) }
      _ _ rfl (index_lt idPage) isPrivate
    have small := stored.count_le isPrivate
    rw [at'] at count
    simp [ofKind, isPrivate] at count
    have less : subW 16 stored.cPrivate 1 = stored.cPrivate - 1 := by
      apply subW_of_le
      · rw [counted.cPrivate]
        simp only [chunkNumPages] at small
        omega
      · rw [counted.cPrivate]
        omega
    have freed : ∀ n, FreedOne idPage (.priv pfn owner) n g
        ((g.setAllocatedPages n).freePageWorker hGVM (idPage / chunkNumPages)
          (idPage % chunkNumPages) { stored with cPrivate := subW 16 stored.cPrivate 1 }) := by
      intro n
      have page' := (arranged.setAllocatedPages n).freePageWorker hGVM
        (subW 16 stored.cPrivate 1) stored.cShared here (index_lt idPage)
        (by rw [at']; exact fun _ => GmmPage.noConfusion)
        (by
          rw [at', less, counted.cPrivate]
          simp only [ofKind, isPrivate, if_true]
          omega)
        (by rw [at']; rfl)
      rw [at', number_eq] at page'
      exact ⟨page'.arranged, page'.counters.cAllocatedPages, page'.counters.cPrivatePages,
        page'.used, page'.owned, page'.others⟩
    unfold Gmm.freePrivatePage
    rw [here]
    exact freed _

theorem Arranged.freeSharedPage (arranged : g.Arranged) (hGVM : Nat) {pfn cRefs : Nat}
    (page : g.getPage idPage = some (.shared pfn cRefs)) :
    FreedOne idPage (.shared pfn cRefs) (subW 64 g.cAllocatedPages 1) g
      (g.freeSharedPage hGVM idPage) := by
  cases here : g.chunks (idPage / chunkNumPages) with
  | none =>
    rw [getPage, here] at page
    cases page
  | some stored =>
    have at' : stored.aPages (idPage % chunkNumPages) = .shared pfn cRefs := by
      rw [getPage, here] at page
      exact Option.some.inj page
    obtain ⟨-, counted, -⟩ := arranged.chunks _ stored here
    have count := @GmmChunk.count_update stored
      { stored with aPages := update stored.aPages (idPage % chunkNumPages) (.free 0) }
      _ _ rfl (index_lt idPage) isShared
    have small := stored.count_le isShared
    rw [at'] at count
    simp [ofKind, isShared] at count
    have less : subW 16 stored.cShared 1 = stored.cShared - 1 := by
      apply subW_of_le
      · rw [counted.cShared]
        simp only [chunkNumPages] at small
        omega
      · rw [counted.cShared]
        omega
    have freed : ∀ n m, FreedOne idPage (.shared pfn cRefs) n g
        (((g.setAllocatedPages n).setSharedPages m).freePageWorker hGVM (idPage / chunkNumPages)
          (idPage % chunkNumPages) { stored with cShared := subW 16 stored.cShared 1 }) := by
      intro n m
      have page' := ((arranged.setAllocatedPages n).setSharedPages m).freePageWorker hGVM
        stored.cPrivate (subW 16 stored.cShared 1) here (index_lt idPage)
        (by rw [at']; exact fun _ => GmmPage.noConfusion)
        (by rw [at']; rfl)
        (by
          rw [at', less, counted.cShared]
          simp only [ofKind, isShared, if_true]
          omega)
      rw [at', number_eq] at page'
      exact ⟨page'.arranged, page'.counters.cAllocatedPages, page'.counters.cPrivatePages,
        page'.used, page'.owned, page'.others⟩
    unfold Gmm.freeSharedPage
    rw [here]
    exact freed _ _

/-- A page gets other contents and stays what it is. -/
theorem Arranged.setPage (arranged : g.Arranged) {old page : GmmPage}
    (here : g.getPage idPage = some old) (busy : ∀ iNext, old ≠ .free iNext)
    (busy' : ∀ iNext, page ≠ .free iNext) (privates : isPrivate page = isPrivate old)
    (shared : isShared page = isShared old) (owners : ∀ h, isPrivateOf h page = isPrivateOf h old) :
    (g.setPage idPage page).Arranged ∧ SameCounters g (g.setPage idPage page) ∧
    (g.setPage idPage page).used = g.used ∧ ∀ h, (g.setPage idPage page).owned h = g.owned h := by
  cases chunk : g.chunks (idPage / chunkNumPages) with
  | none =>
    rw [getPage, chunk] at here
    cases here
  | some stored =>
    have at' : stored.aPages (idPage % chunkNumPages) = old := by
      rw [getPage, chunk] at here
      exact Option.some.inj here
    subst at'
    obtain ⟨known, counted, linked⟩ := arranged.chunks _ stored chunk
    set after : GmmChunk := { stored with
      aPages := update stored.aPages (idPage % chunkNumPages) page } with def'
    have counted' : after.Counted := counted.setPage (index_lt idPage) busy busy' rfl rfl rfl rfl
      rfl privates shared
    have eq : g.setPage idPage page = g.setChunk (idPage / chunkNumPages) after := by
      unfold Gmm.setPage
      rw [chunk]
    have chunks : (g.setPage idPage page).chunks =
        update g.chunks (idPage / chunkNumPages) (some after) := by
      rw [eq]
      rfl
    have counters : SameCounters g (g.setPage idPage page) := by
      rw [eq]
      exact .setChunk g _ after
    have shelved : (g.setPage idPage page).Shelved := by
      rw [eq]
      exact arranged.shelved.setChunk ((shelf_of_chunk chunk).trans rfl)
    refine ⟨arranged.change known shelved counters.legacy chunks ?_, counters, ?_, ?_⟩
    · intro c eq
      cases eq
      exact ⟨counted', linked⟩
    · have sums := total_update chunks known fun chunk => chunk.cPrivate + chunk.cShared
      rw [chunk] at sums
      simp only [Option.map_some, Option.getD_some, def'] at sums
      exact Nat.add_right_cancel sums
    · intro h
      have sums := total_update chunks known (·.count (isPrivateOf h))
      have count := @GmmChunk.count_update stored after _ _ rfl (index_lt idPage) (isPrivateOf h)
      have same : ofKind (isPrivateOf h) page =
          ofKind (isPrivateOf h) (stored.aPages (idPage % chunkNumPages)) := by
        rw [ofKind, ofKind, owners h]
      rw [chunk] at sums
      simp only [Option.map_some, Option.getD_some] at sums
      rw [owned, owned]
      omega

end Gmm

end VBox.Vmm
