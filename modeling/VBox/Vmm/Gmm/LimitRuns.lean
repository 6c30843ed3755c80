import VBox.Lib.Run
import VBox.Vmm.Gmm.Limits

/-!
The limits in runs of sections of any calls.

Allocations page by page charge their account before they drop the lock. A large page is
checked before the lock is dropped and charged after it has been taken again, without a
second look, and never against the limit of the whole.
-/

namespace VBox.Vmm

open Function (update)
open VBox.Lib

namespace Gmm

variable {A : Nat} {enmAccount : GmmAccount} {g g' g'' : Gmm} {m n m' n' : Nat}

/-! ### Lowering an account -/

/-- One account of `A` goes down by `n` at most, and the total by `m`. -/
structure Lowers (A : Nat) (enmAccount : GmmAccount) (n m : Nat) (g g' : Gmm) : Prop where
  max : g'.cMaxPages = g.cMaxPages
  reserved : ∀ B, (g'.vms B).reserved = (g.vms B).reserved
  ballooned : ∀ B, (g'.vms B).cBalloonedPages = (g.vms B).cBalloonedPages
  others : ∀ B enm, B ≠ A ∨ enm ≠ enmAccount →
    (g'.vms B).allocated enm = (g.vms B).allocated enm
  account : (g.vms A).allocated enmAccount < 2 ^ enmAccount.width →
    n ≤ (g.vms A).allocated enmAccount →
    (g'.vms A).allocated enmAccount ≤ (g.vms A).allocated enmAccount ∧
      (g.vms A).allocated enmAccount ≤ (g'.vms A).allocated enmAccount + n
  total : g.cAllocatedPages < 2 ^ 64 → m ≤ g.cAllocatedPages →
    g'.cAllocatedPages ≤ g.cAllocatedPages ∧ g.cAllocatedPages ≤ g'.cAllocatedPages + m

namespace Lowers

theorem of_spends (spends : Spends m g g') : Lowers A enmAccount 0 m g g' := by
  refine ⟨spends.max, fun B => (spends.accounts B).reserved,
    fun B => (spends.accounts B).cBalloonedPages, ?_, ?_, spends.total⟩
  · intro B enm _
    rw [(spends.accounts B).allocated]
  · intro _ _
    rw [(spends.accounts A).allocated]
    exact ⟨le_refl _, le_refl _⟩

theorem trans (first : Lowers A enmAccount n m g g') (second : Lowers A enmAccount n' m' g' g'') :
    Lowers A enmAccount (n + n') (m + m') g g'' := by
  refine ⟨second.max.trans first.max, fun B => (second.reserved B).trans (first.reserved B),
    fun B => (second.ballooned B).trans (first.ballooned B), ?_, ?_, ?_⟩
  · intro B enm other
    rw [second.others B enm other, first.others B enm other]
  · intro fits enough
    obtain ⟨le, ge⟩ := first.account fits (by omega)
    obtain ⟨le', ge'⟩ := second.account (by omega) (by omega)
    exact ⟨by omega, by omega⟩
  · intro fits enough
    obtain ⟨le, ge⟩ := first.total fits (by omega)
    obtain ⟨le', ge'⟩ := second.total (by omega) (by omega)
    exact ⟨by omega, by omega⟩

theorem mono (lowers : Lowers A enmAccount n m g g') (account : n ≤ n') (total : m ≤ m') :
    Lowers A enmAccount n' m' g g' := by
  refine ⟨lowers.max, lowers.reserved, lowers.ballooned, lowers.others, ?_, ?_⟩
  · intro fits enough
    obtain ⟨below, above⟩ := lowers.account fits (by omega)
    exact ⟨below, by omega⟩
  · intro fits enough
    obtain ⟨below, above⟩ := lowers.total fits (by omega)
    exact ⟨below, by omega⟩

end Lowers

theorem lowers_discharge (g : Gmm) (A : Nat) (enmAccount : GmmAccount) (n : Nat) :
    Lowers A enmAccount n 0 g (g.discharge A enmAccount n) := by
  refine ⟨rfl, ?_, ?_, ?_, ?_, fun _ _ => ⟨le_refl _, le_refl _⟩⟩
  · intro B
    by_cases eq : B = A <;> simp [discharge, eq]
  · intro B
    by_cases eq : B = A <;> simp [discharge, eq]
  · intro B enm other
    by_cases eq : B = A
    · subst eq
      have ne : enm ≠ enmAccount := by simpa using other
      simp [discharge, ne]
    · simp [discharge, eq]
  · intro fits enough
    have eq : ((g.discharge A enmAccount n).vms A).allocated enmAccount =
        (g.vms A).allocated enmAccount - n := by
      simp [discharge, subW_of_le fits enough]
    omega

theorem lowers_dischargePages (g : Gmm) (A : Nat) (enmAccount : GmmAccount) (n m : Nat) :
    Lowers A enmAccount n m g (g.dischargePages A enmAccount n m) := by
  have counted := spends_setPrivatePages g A (subW 64 (g.vms A).cPrivatePages n)
  have spent := counted.after (spends_setAllocatedPages _ m)
  have lowered := (Lowers.of_spends spent).trans (lowers_discharge _ A enmAccount n)
  exact lowered.mono (le_of_eq (Nat.zero_add n)) (le_of_eq (Nat.add_zero m))

/-! ### Charging an account -/

@[simp] theorem chargePages_cMaxPages :
    (g.chargePages A enmAccount n).cMaxPages = g.cMaxPages := rfl

@[simp] theorem chargePages_cAllocatedPages :
    (g.chargePages A enmAccount n).cAllocatedPages = addW 64 g.cAllocatedPages n := rfl

theorem chargePages_reserved (B : Nat) :
    ((g.chargePages A enmAccount n).vms B).reserved = (g.vms B).reserved := by
  by_cases eq : B = A <;> simp [chargePages, charge, setPrivatePages, eq]

theorem chargePages_cBallooned (B : Nat) (enm : GmmAccount) :
    ((g.chargePages A enmAccount n).vms B).cBallooned enm = (g.vms B).cBallooned enm := by
  by_cases eq : B = A <;> cases enm <;>
    simp [chargePages, charge, setPrivatePages, GmmPerVm.cBallooned, eq]

theorem chargePages_allocated (B : Nat) (enm : GmmAccount) :
    ((g.chargePages A enmAccount n).vms B).allocated enm = if B = A ∧ enm = enmAccount then
      addW enmAccount.width ((g.vms A).allocated enmAccount) n else (g.vms B).allocated enm := by
  by_cases eq : B = A
  · by_cases same : enm = enmAccount <;> simp [chargePages, charge, setPrivatePages, eq, same]
  · simp [chargePages, charge, setPrivatePages, eq]

/-! ### The limits -/

/-- What is not written by any section fits its type. -/
structure Typed (g : Gmm) : Prop where
  cMaxPages : g.cMaxPages < 2 ^ 64
  reserved : ∀ B enm, (g.vms B).reserved enm < 2 ^ enm.width

structure Limits (g : Gmm) : Prop where
  total : g.cAllocatedPages ≤ g.cMaxPages
  account : ∀ B enm,
    (g.vms B).allocated enm + (g.vms B).cBallooned enm ≤ (g.vms B).reserved enm

structure Bounded (g : Gmm) : Prop extends Typed g, Limits g

namespace Bounded

variable (bounded : Bounded g)

include bounded

theorem allocated_lt (B : Nat) (enm : GmmAccount) : (g.vms B).allocated enm < 2 ^ enm.width :=
  lt_of_le_of_lt ((Nat.le_add_right _ _).trans (bounded.account B enm)) (bounded.reserved B enm)

theorem total_lt : g.cAllocatedPages < 2 ^ 64 := lt_of_le_of_lt bounded.total bounded.cMaxPages

/-- Lowering counters that hold enough keeps the limits. -/
theorem lowers (lowers : Lowers A enmAccount n m g g')
    (account : n ≤ (g.vms A).allocated enmAccount) (total : m ≤ g.cAllocatedPages) :
    Bounded g' where
  cMaxPages := lowers.max ▸ bounded.cMaxPages
  reserved B enm := by
    rw [lowers.reserved B]
    exact bounded.reserved B enm
  total := by
    rw [lowers.max]
    exact (lowers.total bounded.total_lt total).1.trans bounded.total
  account B enm := by
    have same : (g'.vms B).cBallooned enm = (g.vms B).cBallooned enm := by
      cases enm <;> simp [GmmPerVm.cBallooned, lowers.ballooned B]
    have le : (g'.vms B).allocated enm ≤ (g.vms B).allocated enm := by
      by_cases mine : B = A ∧ enm = enmAccount
      · obtain ⟨rfl, rfl⟩ := mine
        exact (lowers.account (bounded.allocated_lt B enm) account).1
      · rw [lowers.others B enm (not_and_or.1 mine)]
    rw [lowers.reserved B, same]
    exact (Nat.add_le_add_right le _).trans (bounded.account B enm)

theorem spends (spends : Spends m g g') (total : m ≤ g.cAllocatedPages) : Bounded g' := by
  have lowers : Lowers 0 .base 0 m g g' := .of_spends spends
  exact bounded.lowers lowers (Nat.zero_le _) total

/-- Picking pages keeps the limits. -/
theorem same (spends : Spends 0 g g') : Bounded g' := bounded.spends spends (Nat.zero_le _)

/-- A charge keeps the limits if what it stores does. -/
theorem chargePages (account : addW enmAccount.width ((g.vms A).allocated enmAccount) n +
      (g.vms A).cBallooned enmAccount ≤ (g.vms A).reserved enmAccount)
    (total : addW 64 g.cAllocatedPages n ≤ g.cMaxPages) : Bounded (g.chargePages A enmAccount n) where
  cMaxPages := bounded.cMaxPages
  reserved B enm := by
    rw [chargePages_reserved]
    exact bounded.reserved B enm
  total := by
    rw [chargePages_cMaxPages, chargePages_cAllocatedPages]
    exact total
  account B enm := by
    rw [chargePages_reserved, chargePages_cBallooned, chargePages_allocated]
    split
    · rename_i mine
      obtain ⟨rfl, rfl⟩ := mine
      exact account
    · exact bounded.account B enm

end Bounded

/-! ### Sections of allocations -/

theorem spends_allocated (call : AllocCall) {p : Pick} (spends : Spends 0 g p.gmm) :
    Spends 0 g (allocated call p).1 := by
  unfold allocated
  split <;> exact spends

theorem spends_pickPages (g : Gmm) (call : AllocCall) : Spends 0 g (g.pickPages call).1 := by
  have rule := spendsRule call.hGVM
  unfold pickPages
  simp only
  split
  · exact rule.inBoundMode ⟨g, call.ids, call.left⟩
  · split
    · exact spends_allocated call (rule.inBoundMode ⟨g, call.ids, call.left⟩)
    · exact spends_allocated call (rule.pickShared ⟨g, call.ids, call.left⟩)

/-- What a check that succeeds has compared. -/
theorem checkLimits_success (ok : g.checkLimits A enmAccount n = .success) :
    addW 64 g.cAllocatedPages n ≤ g.cMaxPages ∧
      addW enmAccount.width (addW enmAccount.width ((g.vms A).allocated enmAccount)
        ((g.vms A).cBallooned enmAccount)) n ≤ (g.vms A).reserved enmAccount := by
  unfold checkLimits at ok
  simp only at ok
  split at ok
  · cases ok
  · rename_i total
    split at ok
    · cases ok
    · rename_i account
      exact ⟨not_lt.1 total, not_lt.1 account⟩

/-- The sums of the base account do not wrap. -/
def SumFits (g : Gmm) (A : Nat) (enmAccount : GmmAccount) (n : Nat) : Prop :=
  enmAccount = .base → (g.vms A).allocated .base + (g.vms A).cBalloonedPages + n < 2 ^ 64

namespace Bounded

/-- The account is charged with what the check has compared. -/
theorem chargePages_of_checkLimits (bounded : Bounded g) (fits : SumFits g A enmAccount n)
    (ok : g.checkLimits A enmAccount n = .success) : Bounded (g.chargePages A enmAccount n) := by
  obtain ⟨total, account⟩ := checkLimits_success ok
  refine bounded.chargePages ?_ total
  by_cases base : enmAccount = .base
  · subst base
    have sum := fits rfl
    simp only [GmmPerVm.cBallooned, GmmAccount.width] at account ⊢
    rw [addW_of_lt (by omega : _ + (g.vms A).cBalloonedPages < 2 ^ 64), addW_of_lt (by omega)]
      at account
    rw [addW_of_lt (by omega)]
    omega
  · have none : (g.vms A).cBallooned enmAccount = 0 := by
      cases enmAccount <;> simp_all [GmmPerVm.cBallooned]
    have alone : addW enmAccount.width ((g.vms A).allocated enmAccount) 0 =
        (g.vms A).allocated enmAccount := addW_of_lt (bounded.allocated_lt A enmAccount)
    rw [none, alone] at account
    rwa [none]

theorem allocatePagesNew (bounded : Bounded g) {descs : List Nat}
    (fits : SumFits g A enmAccount descs.length) :
    Bounded (g.allocatePagesNew A enmAccount descs).1 := by
  unfold Gmm.allocatePagesNew
  split
  · rename_i ok
    exact (bounded.chargePages_of_checkLimits fits ok).same (spends_pickPages _ _)
  · exact bounded

end Bounded

theorem lowers_cleanUp (g : Gmm) (call : AllocCall) :
    Lowers call.hGVM call.enmAccount call.cPages (call.left.length + call.ids.length) g
      (g.cleanUp call) := by
  have released := spends_releasePages call.hGVM call.ids.reverse
    (g.dischargePages call.hGVM call.enmAccount call.cPages call.left.length)
  rw [List.length_reverse] at released
  exact (lowers_dischargePages g _ _ _ _).trans (.of_spends released)

/-- An allocation that is carried on gives up: there is no chunk, and no page elsewhere. -/
def GivesUp (g : Gmm) (call : AllocCall) : HostResult → Prop
  | .memory => (g.registerChunk (g.setFor call.hGVM) call.hGVM).2 = none
  | .failed rc => g.mayScavenge call rc = false

/-- The clean up finds in the counters what it takes off. -/
def CoversCleanUp (g : Gmm) (call : AllocCall) : Prop :=
  call.cPages ≤ (g.vms call.hGVM).allocated call.enmAccount ∧
    call.left.length + call.ids.length ≤ g.cAllocatedPages

namespace Bounded

theorem cleanUp (bounded : Bounded g) {call : AllocCall} (covers : CoversCleanUp g call) :
    Bounded (g.cleanUp call) :=
  bounded.lowers (lowers_cleanUp g call) covers.1 covers.2

theorem allocateChunkNew (bounded : Bounded g) {call : AllocCall} {host : HostResult}
    (covers : GivesUp g call host → CoversCleanUp g call) :
    Bounded (g.allocateChunkNew call host).1 := by
  have rule := spendsRule call.hGVM
  cases host with
  | memory =>
    have registered := spends_registerChunk g (g.setFor call.hGVM) call.hGVM
    unfold Gmm.allocateChunkNew useChunk
    simp only
    split
    · rename_i g' eq
      have enough := covers (by rw [GivesUp, eq])
      rw [eq] at registered
      refine (bounded.same registered).cleanUp ⟨?_, ?_⟩
      · rw [(registered.accounts call.hGVM).allocated]
        exact enough.1
      · exact enough.2.trans (registered.total bounded.total_lt (Nat.zero_le _)).2
    · rename_i g' id eq
      rw [eq] at registered
      split
      · exact bounded.same registered
      · rename_i chunk here
        have taken := spends_allocatePagesFromChunk call.hGVM ⟨g', call.ids, call.left⟩ id chunk
        exact (bounded.same registered).same (spends_allocated call taken)
  | failed rc =>
    unfold Gmm.allocateChunkNew withoutChunk
    simp only
    split
    · exact bounded.same (rule.ifMore (rule.indiscriminately .privateX ⟨g, call.ids, call.left⟩)
        (rule.indiscriminately .shared))
    · rename_i lost
      exact bounded.cleanUp (covers (by simpa [GivesUp] using lost))

end Bounded

/-! ### Updates of handy pages -/

theorem spends_updatePrivate (g : Gmm) (A : Nat) (update : HandyUpdate) :
    Spends 0 g (g.updatePrivate A update).1 := by
  unfold updatePrivate
  split
  · exact .refl g
  · split
    · exact .refl g
    · split
      · exact spends_setPage g _ _
      · exact .refl g
    · exact .refl g

/-- The number of updates that drop a reference. -/
def drops (updates : List HandyUpdate) : Nat :=
  (updates.filter fun update => update.idSharedPage ≠ 0).length

theorem lowers_updateShared (g : Gmm) (A : Nat) (update : HandyUpdate) :
    Lowers A .base (drops [update]) (drops [update]) g (g.updateShared A update).1 := by
  have none : Lowers A .base (drops [update]) (drops [update]) g g :=
    (Lowers.of_spends (.refl g)).mono (Nat.zero_le _) (Nat.zero_le _)
  unfold updateShared
  split
  · exact none
  · rename_i drop
    have one : drops [update] = 1 := by simp [drops, drop]
    split
    · exact none
    · rename_i pfn cRefs _
      have released := spends_releaseSharedPage (g.discharge A .base 1) A update.idSharedPage pfn
        cRefs
      have both := (lowers_discharge g A .base 1).trans (.of_spends released)
      rw [one]
      simp only
      exact both.mono (le_refl 1) (le_refl 1)
    · exact none

theorem drops_cons (update : HandyUpdate) (updates : List HandyUpdate) :
    drops (update :: updates) = drops [update] + drops updates := by
  unfold drops
  rw [← List.length_append, ← List.filter_append, List.singleton_append]

theorem lowers_updateHandy (A : Nat) (updates : List HandyUpdate) (g : Gmm) :
    Lowers A .base (drops updates) (drops updates) g (updateHandy A updates g).1 := by
  induction updates generalizing g with
  | nil => exact .of_spends (.refl g)
  | cons update updates ih =>
    have private' := spends_updatePrivate g A update
    rw [drops_cons]
    unfold updateHandy
    split
    · rename_i g' eq
      rw [eq] at private'
      have shared := (Lowers.of_spends private').trans (lowers_updateShared g' A update)
      rw [Nat.zero_add] at shared
      split
      · rename_i g'' eq
        rw [eq] at shared
        exact shared.trans (ih g'')
      · rename_i g'' rc _ eq
        rw [eq] at shared
        exact shared.mono (Nat.le_add_right _ _) (Nat.le_add_right _ _)
    · rename_i g' rc _ eq
      rw [eq] at private'
      exact (Lowers.of_spends private').mono (Nat.zero_le _) (Nat.zero_le _)

/-! ### The other sections -/

/-- The second section of a large page finds room for it. -/
def RoomForLargePage (g : Gmm) (A : Nat) : Prop :=
  (g.vms A).allocated .base + (g.vms A).cBalloonedPages + chunkNumPages ≤ (g.vms A).reserved .base ∧
    g.cAllocatedPages + chunkNumPages ≤ g.cMaxPages

/-- The host has a chunk for a large page, and it is registered. -/
def Registers (g : Gmm) (A : Nat) (host : HostResult) : Prop :=
  host = .memory ∧ (g.registerChunk (g.setFor A) A).2 ≠ none

theorem RoomForLargePage.of_spends (room : RoomForLargePage g A) (fits : g.cAllocatedPages < 2 ^ 64)
    (spends : Spends 0 g g') : RoomForLargePage g' A := by
  have accounts := spends.accounts A
  have total := (spends.total fits (Nat.zero_le _)).1
  unfold RoomForLargePage
  rw [accounts.allocated, accounts.cBalloonedPages, accounts.reserved, spends.max]
  exact ⟨room.1, (Nat.add_le_add_right total _).trans room.2⟩

namespace Bounded

section

variable (bounded : Bounded g)

include bounded

theorem chargeLargePage (room : RoomForLargePage g A) :
    Bounded (g.chargePages A .base chunkNumPages) := by
  obtain ⟨account, total⟩ := room
  have reserved := bounded.reserved A .base
  have max := bounded.cMaxPages
  simp only [GmmAccount.width] at reserved
  apply bounded.chargePages
  · simp only [GmmPerVm.cBallooned, GmmAccount.width]
    rw [addW_of_lt (by omega)]
    omega
  · rw [addW_of_lt (by omega)]
    exact total

/-- The balloon of a VM gets another size. -/
theorem setBallooned (total : Nat)
    (account : (g.vms A).allocated .base + n ≤ (g.vms A).reserved .base) :
    Bounded (g.setBallooned A total n) where
  cMaxPages := bounded.cMaxPages
  reserved B enm := by
    by_cases eq : B = A
    · subst eq
      simpa [Gmm.setBallooned] using bounded.reserved B enm
    · simpa [Gmm.setBallooned, eq] using bounded.reserved B enm
  total := bounded.total
  account B enm := by
    have within := bounded.account B enm
    by_cases eq : B = A
    · subst eq
      cases enm with
      | base => simpa [Gmm.setBallooned, GmmPerVm.cBallooned] using account
      | shadow => simpa [Gmm.setBallooned, GmmPerVm.cBallooned] using within
      | fixed => simpa [Gmm.setBallooned, GmmPerVm.cBallooned] using within
    · simpa [Gmm.setBallooned, eq] using within

theorem allocatePages {descs : List Nat} (fits : SumFits g A enmAccount descs.length) :
    Bounded (g.allocatePages A enmAccount descs).1 := by
  unfold Gmm.allocatePages
  split
  · exact bounded
  · split
    · exact bounded.allocatePagesNew fits
    · exact bounded

theorem allocateHandyPages {updates : List HandyUpdate} {cPagesToAlloc : Nat}
    (account : drops updates ≤ (g.vms A).allocated .base)
    (total : drops updates ≤ g.cAllocatedPages) (fits : SumFits g A .base cPagesToAlloc) :
    Bounded (g.allocateHandyPages A updates cPagesToAlloc).1 := by
  have lowered := lowers_updateHandy A updates g
  unfold Gmm.allocateHandyPages
  split
  · exact bounded
  · split
    · split
      · rename_i g' eq
        rw [eq] at lowered
        have bounded' := bounded.lowers lowered account total
        split
        · exact bounded'
        · apply bounded'.allocatePagesNew
          intro _
          have le := (lowered.account (bounded.allocated_lt A .base) account).1
          have sum := fits rfl
          rw [List.length_replicate, lowered.ballooned A]
          omega
      · rename_i g' rc _ eq
        rw [eq] at lowered
        exact bounded.lowers lowered account total
    · exact bounded

theorem freePages {ids : List Nat}
    (total : ids.length ≤ (g.vms A).allocated enmAccount → ids.length ≤ g.cAllocatedPages) :
    Bounded (g.freePages A enmAccount ids).1 := by
  unfold Gmm.freePages
  split
  · exact bounded
  · split
    · exact bounded
    · rename_i enough
      obtain ⟨spent, le⟩ := spends_freeLoop A ids 0 g
      have freed := (Lowers.of_spends spent).trans
        (lowers_discharge (freeLoop A ids 0 g).1 A enmAccount (freeLoop A ids 0 g).2.1)
      rw [Nat.zero_add, Nat.add_zero] at freed
      rw [Nat.zero_add] at le
      exact bounded.lowers freed (le.trans (not_lt.1 enough)) (total (not_lt.1 enough))

theorem allocateLargePageChunk {host : HostResult}
    (room : Registers g A host → RoomForLargePage g A) :
    Bounded (g.allocateLargePageChunk A host).1 := by
  cases host with
  | failed rc => exact bounded
  | memory =>
    have registered := spends_registerChunk g (g.setFor A) A
    unfold Gmm.allocateLargePageChunk
    simp only
    split
    · rename_i g' eq
      rw [eq] at registered
      exact bounded.same registered
    · rename_i g' id eq
      rw [eq] at registered
      split
      · exact bounded.same registered
      · rename_i chunk here
        set taken := (Pick.takePages A id [] (List.replicate chunkNumPages nilHCPhys)
          { chunk with pSet := none }).1
        have spent := (registered.step (spends_unlinkChunk g' id chunk)).step
          (spends_setChunk _ id taken)
        have found := room ⟨rfl, by rw [eq]; exact Option.some_ne_none id⟩
        have charged := (bounded.same spent).chargeLargePage
          (found.of_spends bounded.total_lt spent)
        apply charged.same
        simp only
        exact spends_linkChunk _ id taken _

theorem balloonedPages {enmAction : BalloonAction} {cPages : Nat}
    (fits : enmAction = .inflate → SumFits g A .base cPages) :
    Bounded (g.balloonedPages A enmAction cPages).1 := by
  have within := bounded.account A .base
  have reserved := bounded.reserved A .base
  simp only [GmmPerVm.cBallooned, GmmAccount.width] at within reserved
  unfold Gmm.balloonedPages
  simp only
  split
  · exact bounded
  · cases enmAction with
    | inflate =>
      have sum := fits rfl rfl
      simp only
      split
      · rename_i account
        rw [addW_of_lt (by omega : _ + (g.vms A).cBalloonedPages < 2 ^ 64),
          addW_of_lt (by omega)] at account
        apply bounded.setBallooned
        rw [addW_of_lt (by omega)]
        omega
      · exact bounded
    | deflate =>
      simp only
      split
      · rename_i enough
        apply bounded.setBallooned
        rw [subW_of_le (by omega) enough]
        omega
      · exact bounded
    | reset =>
      apply bounded.setBallooned
      omega

end

end Bounded

end Gmm

/-! ### Runs -/

/-- The memory manager, with the allocations that wait for the host: those of pages, and the
VMs of those of a large page. -/
structure GmmMachine where
  gmm : Gmm
  calls : List AllocCall
  larges : List Nat

/-- A section under the giant lock, of any thread of any VM. -/
inductive GmmLabel where
  | allocatePages (hGVM : Nat) (enmAccount : GmmAccount) (descs : List Nat)
  | allocateHandyPages (hGVM : Nat) (updates : List Gmm.HandyUpdate) (cPagesToAlloc : Nat)
  | allocateChunk (iCall : Nat) (host : HostResult)
  | allocateLargePage (hGVM : Nat)
  | allocateLargePageChunk (iLarge : Nat) (host : HostResult)
  | freePages (hGVM : Nat) (enmAccount : GmmAccount) (ids : List Nat)
  | balloonedPages (hGVM : Nat) (enmAction : Gmm.BalloonAction) (cBalloonedPages : Nat)

namespace GmmMachine

/-- The end of a section of an allocation. -/
def leave (m : GmmMachine) : Gmm × Outcome → GmmMachine
  | (gmm, .done _) => { m with gmm }
  | (gmm, .grow call) => { m with gmm, calls := m.calls ++ [call] }

def next (m : GmmMachine) : GmmLabel → Option GmmMachine
  | .allocatePages hGVM enmAccount descs =>
      some (m.leave (m.gmm.allocatePages hGVM enmAccount descs))
  | .allocateHandyPages hGVM updates cPagesToAlloc =>
      some (m.leave (m.gmm.allocateHandyPages hGVM updates cPagesToAlloc))
  | .allocateChunk iCall host => m.calls[iCall]?.map fun call =>
      { m with calls := m.calls.eraseIdx iCall }.leave (m.gmm.allocateChunkNew call host)
  | .allocateLargePage hGVM =>
      some (if m.gmm.allocateLargePage hGVM = .success then
        { m with larges := m.larges ++ [hGVM] } else m)
  | .allocateLargePageChunk iLarge host => m.larges[iLarge]?.map fun hGVM =>
      { m with
        gmm := (m.gmm.allocateLargePageChunk hGVM host).1
        larges := m.larges.eraseIdx iLarge }
  | .freePages hGVM enmAccount ids => some { m with gmm := (m.gmm.freePages hGVM enmAccount ids).1 }
  | .balloonedPages hGVM enmAction cBalloonedPages =>
      some { m with gmm := (m.gmm.balloonedPages hGVM enmAction cBalloonedPages).1 }

/-- A section that charges a large page finds room for it, what takes from a counter finds
enough there, and no sum wraps. -/
def Covered (m : GmmMachine) : GmmLabel → Prop
  | .allocatePages hGVM enmAccount descs => m.gmm.SumFits hGVM enmAccount descs.length
  | .allocateHandyPages hGVM updates cPagesToAlloc =>
      Gmm.drops updates ≤ (m.gmm.vms hGVM).allocated .base ∧
        Gmm.drops updates ≤ m.gmm.cAllocatedPages ∧ m.gmm.SumFits hGVM .base cPagesToAlloc
  | .allocateChunk iCall host => ∀ call, m.calls[iCall]? = some call →
      m.gmm.GivesUp call host → m.gmm.CoversCleanUp call
  | .allocateLargePage _ => True
  | .allocateLargePageChunk iLarge host => ∀ hGVM, m.larges[iLarge]? = some hGVM →
      m.gmm.Registers hGVM host → m.gmm.RoomForLargePage hGVM
  | .freePages hGVM enmAccount ids =>
      ids.length ≤ (m.gmm.vms hGVM).allocated enmAccount → ids.length ≤ m.gmm.cAllocatedPages
  | .balloonedPages hGVM enmAction cBalloonedPages =>
      enmAction = .inflate → m.gmm.SumFits hGVM .base cBalloonedPages

def Step (m : GmmMachine) (label : GmmLabel) (m' : GmmMachine) : Prop := m.next label = some m'

theorem leave_gmm (m : GmmMachine) (r : Gmm × Outcome) : (m.leave r).gmm = r.1 := by
  obtain ⟨gmm, outcome⟩ := r
  cases outcome <;> rfl

/-- A section that is covered keeps the limits. -/
theorem bounded_step {m m' : GmmMachine} {label : GmmLabel} (bounded : m.gmm.Bounded)
    (covered : m.Covered label) (step : m.Step label m') : m'.gmm.Bounded := by
  unfold Step at step
  cases label with
  | allocatePages hGVM enmAccount descs =>
    cases step
    rw [leave_gmm]
    exact bounded.allocatePages covered
  | allocateHandyPages hGVM updates cPagesToAlloc =>
    cases step
    rw [leave_gmm]
    exact bounded.allocateHandyPages covered.1 covered.2.1 covered.2.2
  | allocateChunk iCall host =>
    obtain ⟨call, waiting, rfl⟩ := Option.map_eq_some_iff.1 step
    rw [leave_gmm]
    exact bounded.allocateChunkNew (covered call waiting)
  | allocateLargePage hGVM =>
    cases step
    split <;> exact bounded
  | allocateLargePageChunk iLarge host =>
    obtain ⟨hGVM, waiting, rfl⟩ := Option.map_eq_some_iff.1 step
    exact bounded.allocateLargePageChunk (covered hGVM waiting)
  | freePages hGVM enmAccount ids =>
    cases step
    exact bounded.freePages covered
  | balloonedPages hGVM enmAction cBalloonedPages =>
    cases step
    exact bounded.balloonedPages covered

/-- A VM with 600 base pages reserved. -/
def reserved600 : GmmMachine where
  gmm := {
    chunks := fun _ => none
    bmChunkId := fun id => id = 0
    idChunkPrev := 0
    sets := fun _ => ⟨0, fun _ => []⟩
    vms := fun _ => ⟨fun _ => 600, fun _ => 0, 0, 0, 0, 0⟩
    cMaxPages := 4096
    cAllocatedPages := 0
    cSharedPages := 0
    cDuplicatePages := 0
    cBalloonedPages := 0
    fLegacyAllocationMode := false
    fBoundMemoryMode := false }
  calls := []
  larges := []

/-- Two threads allocate a large page each. Both check the limits before either charges the
account. -/
def twoLargeLabels : List GmmLabel :=
  [.allocateLargePage 1, .allocateLargePage 1, .allocateLargePageChunk 0 .memory,
    .allocateLargePageChunk 0 .memory]

theorem reserved600_typed : reserved600.gmm.Typed := by
  refine ⟨by decide, ?_⟩
  intro B enm
  cases enm <;> simp [reserved600, GmmAccount.width]

theorem reserved600_limits : reserved600.gmm.Limits := by
  refine ⟨by decide, ?_⟩
  intro B enm
  cases enm <;> simp [reserved600, GmmPerVm.cBallooned]

/-- The limits hold in every run of sections that are covered. -/
theorem run_limits {m m' : GmmMachine} {labels : List GmmLabel} (typed : m.gmm.Typed)
    (limits : m.gmm.Limits) (run : Run (Guarded Covered Step) m labels m') : m'.gmm.Limits :=
  (run.invariant (fun m => m.gmm.Bounded)
    (fun bounded step => bounded_step bounded step.1 step.2) ⟨typed, limits⟩).toLimits

/-- One large page alone stays within the limits. -/
theorem run_limits_large : ∃ m, Run (Guarded Covered Step) reserved600
    [.allocateLargePage 1, .allocateLargePageChunk 0 .memory] m ∧ m.gmm.Limits := by
  have room : reserved600.gmm.RoomForLargePage 1 := by
    unfold Gmm.RoomForLargePage
    decide
  have run : Run (Guarded Covered Step) reserved600
      [.allocateLargePage 1, .allocateLargePageChunk 0 .memory] _ :=
    .next ⟨trivial, rfl⟩ (.next ⟨fun hGVM waiting _ => by cases waiting; exact room, rfl⟩ (.done _))
  exact ⟨_, run, run_limits reserved600_typed reserved600_limits run⟩

/-- The VM ends up with 1024 base pages of the 600. -/
theorem twoLarge_exceeds : reserved600.gmm.Limits ∧
    ∃ m, Run Step reserved600 twoLargeLabels m ∧ ¬ m.gmm.Limits := by
  obtain ⟨m, run, charged⟩ := Run.exists_of_follow (fun _ _ => True) next reserved600
    twoLargeLabels (fun m => (m.gmm.vms 1).allocated .base = 1024 ∧
      (m.gmm.vms 1).reserved .base = 600) (by decide +kernel)
  refine ⟨reserved600_limits, m, run.mono fun step => step.2, ?_⟩
  intro limits
  have within := limits.account 1 .base
  rw [charged.1, charged.2] at within
  omega

end GmmMachine

end VBox.Vmm
