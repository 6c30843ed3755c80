import VBox.Vmm.Gmm.Calls

/-!
How an allocation picks its pages.

Whichever way the free lists are scanned, all that happens to the state is that pages are
taken from chunks and that the last chunk is noted. A relation that holds of these two steps
holds of the whole.
-/

namespace VBox.Vmm

/-- A relation between the stages of an allocation that every step of it meets. -/
structure PickRule (hGVM : Nat) (R : Pick → Pick → Prop) : Prop where
  refl : ∀ p, R p p
  trans : ∀ {p p' p''}, R p p' → R p' p'' → R p p''
  chunk : ∀ (p : Pick) (id owner : Nat) (chunk : GmmChunk), p.gmm.chunks id = some chunk →
    R p (p.allocatePagesFromChunk hGVM id { chunk with hGVM := owner })
  hint : ∀ (p : Pick) (id : Nat), R p { p with
    gmm := p.gmm.setVm hGVM { p.gmm.vms hGVM with idLastChunkHint := id } }

namespace PickRule

open Pick

variable {hGVM : Nat} {R : Pick → Pick → Prop} (rule : PickRule hGVM R)

include rule

theorem ifMore {p p' : Pick} {more : Pick → Pick} (so : R p p') (step : ∀ q, R q (more q)) :
    R p (p'.ifMore more) := by
  unfold Pick.ifMore
  split
  · exact so
  · exact rule.trans so (step p')

theorem scanList (scan : Scan) (ids : List Nat) (p : Pick) : R p (p.scanList hGVM scan ids).1 := by
  induction ids generalizing p with
  | nil => exact rule.refl p
  | cons id ids ih =>
    unfold Pick.scanList
    cases here : p.gmm.chunks id with
    | none => exact ih p
    | some chunk =>
      simp only
      by_cases wants : scan.wants chunk
      · rw [if_pos wants]
        have taken := rule.chunk p id (if scan.adopts then hGVM else chunk.hGVM) chunk here
        generalize p.allocatePagesFromChunk hGVM id
          { chunk with hGVM := if scan.adopts then hGVM else chunk.hGVM } = q at taken ⊢
        split
        · split
          · exact rule.trans taken (rule.hint q _)
          · exact taken
        · exact rule.trans taken (ih q)
      · rw [if_neg wants]
        exact ih p

theorem scanLists (scan : Scan) (pSet : SetId) (iLists : List Nat) (p : Pick) :
    R p (p.scanLists hGVM scan pSet iLists) := by
  induction iLists generalizing p with
  | nil => exact rule.refl p
  | cons iList iLists ih =>
    have list := rule.scanList scan ((p.gmm.sets pSet).apLists iList) p
    unfold Pick.scanLists
    simp only
    split
    · exact list
    · exact rule.trans list (ih _)

theorem indiscriminately (pSet : SetId) (p : Pick) : R p (p.indiscriminately hGVM pSet) :=
  rule.scanLists _ _ _ p

theorem fromEmptyChunksOnSameNode (pSet : SetId) (p : Pick) :
    R p (p.fromEmptyChunksOnSameNode hGVM pSet) :=
  rule.scanLists _ _ _ p

theorem fromSameNode (pSet : SetId) (p : Pick) : R p (p.fromSameNode hGVM pSet) :=
  rule.scanLists _ _ _ p

theorem inBoundMode (p : Pick) : R p (p.inBoundMode hGVM) := rule.scanLists _ _ _ p

theorem fromHint (p : Pick) : R p (p.fromHint hGVM) := by
  unfold Pick.fromHint
  simp only
  split
  · exact rule.refl p
  · cases here : p.gmm.chunks (p.gmm.vms hGVM).idLastChunkHint with
    | none => exact rule.refl p
    | some chunk =>
      simp only
      split
      · exact rule.refl p
      · exact rule.chunk p _ chunk.hGVM chunk here

theorem associatedWithVM (pSet : SetId) (p : Pick) : R p (p.associatedWithVM hGVM pSet) := by
  have hinted := rule.fromHint p
  unfold Pick.associatedWithVM
  simp only
  split
  · exact hinted
  · exact rule.trans hinted (rule.scanLists _ _ _ _)

theorem pickShared (p : Pick) : R p (Gmm.pickShared hGVM p) := by
  apply rule.ifMore (rule.associatedWithVM .privateX p)
  intro p
  have limited : R p (if p.gmm.shouldBecauseOfLimits hGVM then p.fromSameNode hGVM .privateX
      else p) := by
    split
    · exact rule.fromSameNode .privateX p
    · exact rule.refl p
  have emptied := rule.ifMore (rule.ifMore limited (rule.fromEmptyChunksOnSameNode .privateX))
    (rule.fromEmptyChunksOnSameNode .shared)
  have spread : ∀ (lots : Prop) [Decidable lots] (q : Pick), R p q → R p
      (if lots then (q.fromSameNode hGVM .privateX).ifMore (Pick.indiscriminately hGVM .privateX)
      else q) := by
    intro lots _ q so
    split
    · exact rule.ifMore (rule.trans so (rule.fromSameNode .privateX q))
        (rule.indiscriminately .privateX)
    · exact so
  exact spread _ _ emptied

end PickRule

end VBox.Vmm
