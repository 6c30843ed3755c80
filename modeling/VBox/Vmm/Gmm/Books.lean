import VBox.Vmm.Gmm.Freeing
import VBox.Vmm.Gmm.LimitRuns
import VBox.Vmm.Gmm.PickBooks

/-!
The counters of pages in use, through the sections of every call.

An allocation charges its pages before it has them. What is pending is what has been charged
and is still wanted; the counters are the pages in use with what is pending.
-/

namespace VBox.Vmm

open Function (update)
open VBox.Lib List
open GmmChunk (isPrivate isShared isPrivateOf ofKind)

namespace Gmm

variable {g g' : Gmm} {P n m A : Nat} {Q : Nat → Nat} {enmAccount : GmmAccount}

/-- `n` pages more for one VM. -/
def plus (pendingOf : Nat → Nat) (hGVM n : Nat) (h : Nat) : Nat :=
  pendingOf h + if h = hGVM then n else 0

theorem plus_zero (pendingOf : Nat → Nat) (hGVM : Nat) : plus pendingOf hGVM 0 = pendingOf := by
  funext h
  simp [plus]

/-- The counters cover the pages in use and those that are pending. -/
structure Booked (g : Gmm) (pending : Nat) (pendingOf : Nat → Nat) : Prop extends Arranged g where
  cAllocatedPages : g.cAllocatedPages = (g.used + pending) % 2 ^ 64
  cPrivatePages : ∀ h, (g.vms h).cPrivatePages = (g.owned h + pendingOf h) % 2 ^ 64

namespace Booked

theorem same (booked : g.Booked P Q) (arranged : g'.Arranged) (counters : SameCounters g g')
    (used : g'.used = g.used) (owned : ∀ h, g'.owned h = g.owned h) : g'.Booked P Q := by
  refine ⟨arranged, ?_, ?_⟩
  · rw [counters.cAllocatedPages, used, booked.cAllocatedPages]
  · intro h
    rw [counters.cPrivatePages, owned, booked.cPrivatePages]

theorem setVm (booked : g.Booked P Q) (hGVM : Nat) {vm : GmmPerVm}
    (same : vm.cPrivatePages = (g.vms hGVM).cPrivatePages) : (g.setVm hGVM vm).Booked P Q :=
  booked.same (booked.toArranged.setVm hGVM vm) (.setVm g hGVM same) (used_congr rfl)
    (owned_congr rfl)

/-- What is picked is pending no longer. -/
theorem picked {p p' : Pick} (booked : p.gmm.Booked (P + p.left.length) (plus Q A p.left.length))
    (picked : Picked A p p') : p'.gmm.Booked (P + p'.left.length) (plus Q A p'.left.length) := by
  obtain ⟨n, -, left, used, owned⟩ := picked.amount
  refine ⟨picked.arranged, ?_, ?_⟩
  · rw [picked.counters.cAllocatedPages, booked.cAllocatedPages, used, ← left]
    congr 1
    omega
  · intro h
    rw [picked.counters.cPrivatePages, booked.cPrivatePages, owned, ← left]
    unfold plus
    split
    · congr 1
      omega
    · congr 1

/-! ### Accounts -/

/-- Pages are charged, and the counters cover what they should. -/
theorem charged (arranged : g.Arranged) {t n : Nat} {s : Nat → Nat} (enmAccount : GmmAccount)
    (total : g.cAllocatedPages = t % 2 ^ 64) (covers : t + n = g.used + P)
    (privates : ∀ h, (g.vms h).cPrivatePages = s h % 2 ^ 64)
    (each : ∀ h, plus s A n h = g.owned h + Q h) : (g.chargePages A enmAccount n).Booked P Q := by
  have arranged' : (g.chargePages A enmAccount n).Arranged :=
    ((arranged.setVm A _).setVm A _).setAllocatedPages _
  have used : (g.chargePages A enmAccount n).used = g.used := used_congr rfl
  refine ⟨arranged', ?_, ?_⟩
  · rw [chargePages_cAllocatedPages, used, ← covers]
    exact addW_total n total
  · intro h
    have owned : (g.chargePages A enmAccount n).owned h = g.owned h := owned_congr rfl h
    rw [owned, ← each, plus]
    by_cases eq : h = A
    · subst eq
      rw [if_pos rfl, ← addW_total n (privates h)]
      simp [Gmm.chargePages, charge, setPrivatePages]
    · rw [if_neg eq, Nat.add_zero, ← privates h]
      simp [Gmm.chargePages, charge, setPrivatePages, eq]

theorem chargePages (booked : g.Booked P Q) (A n : Nat) (enmAccount : GmmAccount) :
    (g.chargePages A enmAccount n).Booked (P + n) (plus Q A n) := by
  apply charged booked.toArranged enmAccount booked.cAllocatedPages (Nat.add_assoc _ _ _)
    booked.cPrivatePages
  intro h
  exact Nat.add_assoc _ _ _

end Booked

theorem dischargePages_cAllocatedPages :
    (g.dischargePages A enmAccount n m).cAllocatedPages = subW 64 g.cAllocatedPages m := rfl

theorem dischargePages_cPrivatePages (h : Nat) :
    ((g.dischargePages A enmAccount n m).vms h).cPrivatePages =
      if h = A then subW 64 (g.vms A).cPrivatePages n else (g.vms h).cPrivatePages := by
  by_cases eq : h = A
  · simp [dischargePages, discharge, setPrivatePages, eq]
  · simp [dischargePages, discharge, setPrivatePages, eq]

theorem Arranged.dischargePages (arranged : g.Arranged) :
    (g.dischargePages A enmAccount n m).Arranged :=
  ((arranged.setVm A _).setAllocatedPages _).setVm A _

/-! ### The clean up -/

/-- The pages that an allocation has got are private pages of the VM, each once. -/
def StillHas (g : Gmm) (call : AllocCall) : Prop :=
  call.ids.Nodup ∧ ∀ idPage ∈ call.ids, ∃ pfn, g.getPage idPage = some (.priv pfn call.hGVM)

theorem StillHas.congr {call : AllocCall} (has : g.StillHas call) (chunks : g'.chunks = g.chunks) :
    g'.StillHas call := by
  refine ⟨has.1, ?_⟩
  intro idPage mem
  rw [getPage, chunks]
  exact has.2 idPage mem

theorem Arranged.releasePages (arranged : g.Arranged) {ids : List Nat} (nodup : ids.Nodup)
    (pages : ∀ idPage ∈ ids, ∃ pfn, g.getPage idPage = some (.priv pfn A)) :
    (releasePages A ids g).Arranged ∧
    (∀ h, ((releasePages A ids g).vms h).cPrivatePages = (g.vms h).cPrivatePages) ∧
    (releasePages A ids g).used + ids.length = g.used ∧
    (∀ h, (releasePages A ids g).owned h + (if h = A then ids.length else 0) = g.owned h) ∧
    ∀ t, g.cAllocatedPages = (t + ids.length) % 2 ^ 64 →
      (releasePages A ids g).cAllocatedPages = t % 2 ^ 64 := by
  induction ids generalizing g with
  | nil => exact ⟨arranged, fun _ => rfl, rfl, fun h => by simp [Gmm.releasePages], fun _ eq => eq⟩
  | cons idPage ids ih =>
    obtain ⟨fresh, nodup⟩ := nodup_cons.1 nodup
    obtain ⟨pfn, page⟩ := pages idPage mem_cons_self
    have freed := arranged.freePrivatePage A page
    have rest : ∀ other ∈ ids, ∃ pfn,
        (g.freePrivatePage A idPage).getPage other = some (.priv pfn A) := by
      intro other mem
      obtain ⟨pfn', page'⟩ := pages other (mem_cons_of_mem _ mem)
      refine ⟨pfn', freed.others other pfn' A ?_ page'⟩
      rintro rfl
      exact fresh mem
    obtain ⟨arranged', privates, used, owned, total⟩ := ih freed.arranged nodup rest
    have step : releasePages A (idPage :: ids) g =
        releasePages A ids (g.freePrivatePage A idPage) := by
      rw [Gmm.releasePages, page]
    rw [step]
    refine ⟨arranged', fun h => (privates h).trans (freed.cPrivatePages h), ?_, ?_, ?_⟩
    · have one := freed.used
      rw [length_cons]
      omega
    · intro h
      have one := freed.owned h
      have more := owned h
      simp only [ofKind, isPrivateOf, decide_eq_true_eq, eq_comm (a := A)] at one
      rw [length_cons]
      by_cases eq : h = A
      · rw [if_pos eq] at one more ⊢
        omega
      · rw [if_neg eq] at one more ⊢
        omega
    · intro t eq
      apply total
      rw [freed.total]
      apply subW_total _ (by decide)
      rw [eq, length_cons, Nat.add_assoc]

/-- An allocation that waits for a chunk. -/
structure CallOk (call : AllocCall) : Prop where
  sum : call.ids.length + call.left.length = call.cPages
  small : call.cPages ≤ 2 ^ 64
  handle : call.hGVM < 2 ^ 16

namespace Booked

variable {call : AllocCall}

/-- The clean up takes off what has been charged. -/
theorem cleanUp (booked : g.Booked (P + call.left.length) (plus Q call.hGVM call.left.length))
    (ok : CallOk call) (has : g.StillHas call) : (g.cleanUp call).Booked P Q := by
  obtain ⟨sum, small, -⟩ := ok
  have pages : ∀ idPage ∈ call.ids.reverse, ∃ pfn,
      (g.dischargePages call.hGVM call.enmAccount call.cPages call.left.length).getPage idPage =
        some (.priv pfn call.hGVM) := by
    intro idPage mem
    exact has.2 idPage (mem_reverse.1 mem)
  obtain ⟨arranged, privates, used, owned, total⟩ := Arranged.releasePages
    booked.toArranged.dischargePages (nodup_reverse.2 has.1) pages
  have used' : (g.dischargePages call.hGVM call.enmAccount call.cPages call.left.length).used =
    g.used := used_congr rfl
  rw [length_reverse] at used total owned
  refine ⟨arranged, ?_, ?_⟩
  · apply total
    rw [dischargePages_cAllocatedPages]
    apply subW_total _ (by omega)
    rw [booked.cAllocatedPages, ← used', ← used, Gmm.cleanUp]
    congr 1
    omega
  · intro h
    have owned' : (g.dischargePages call.hGVM call.enmAccount call.cPages
      call.left.length).owned h = g.owned h := owned_congr rfl h
    have more := owned h
    rw [owned'] at more
    unfold Gmm.cleanUp
    rw [privates, dischargePages_cPrivatePages]
    have before := booked.cPrivatePages h
    rw [← more, plus] at before
    by_cases eq : h = call.hGVM
    · subst eq
      rw [if_pos rfl, if_pos rfl] at before
      rw [if_pos rfl]
      apply subW_total _ small
      rw [before]
      congr 1
      omega
    · rw [if_neg eq, if_neg eq, Nat.add_zero, Nat.add_zero] at before
      rw [if_neg eq]
      exact before

end Booked

end Gmm

end VBox.Vmm
