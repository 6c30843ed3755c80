import VBox.Runtime.KAvlRuns

/-!
Iteration and destruction of AVL trees (`avl_DoWithAll.cpp.h`, `avl_Destroy.cpp.h`).

`none` stands for a stack entry beyond `KAVL_MAX_STACK`, as in the other functions. A tree of at
most `KAVL_MAX_STACK` levels never needs one.
-/

namespace VBox.Runtime

open VBox.Lib List Option

variable {κ δ σ : Type}

/-- A callback with its user parameter. -/
abbrev KAvlCallback (κ δ σ : Type) := σ → KAvlEntry κ δ → Int × σ

def isNull : KAvlTree κ δ → Bool
  | .null => true
  | .node .. => false

/-- The number of nodes. -/
def countOf (t : KAvlTree κ δ) : Nat := t.inorder.length

theorem countOf_node (p : KAvlNode κ δ) (left right : KAvlTree κ δ) :
    countOf (.node p left right) = countOf left + countOf right + 1 := by
  rw [countOf, Lib.Tree.inorder, length_append, length_cons]
  rfl

/-! ### Iteration -/

/-- An entry of `KAVLSTACK2`: a node, and whether the subtree that comes first is done. -/
abbrev KAvlStack2 (κ δ : Type) := List (KAvlTree κ δ × Bool)

/-- How many rounds the loop has left. -/
def roundsLeft (fFromLeft : Bool) : KAvlStack2 κ δ → Nat
  | [] => 0
  | (.null, _) :: rest => roundsLeft fFromLeft rest
  | (.node _ left right, flag) :: rest =>
    (if flag then 2 * countOf (if fFromLeft then right else left) + 1
      else 2 * (countOf left + countOf right + 1)) + roundsLeft fFromLeft rest

theorem roundsLeft_false (fFromLeft : Bool) (t : KAvlTree κ δ) (rest : KAvlStack2 κ δ) :
    roundsLeft fFromLeft ((t, false) :: rest) = 2 * countOf t + roundsLeft fFromLeft rest := by
  cases t with
  | null => exact (Nat.zero_add _).symm
  | node p left right => rw [countOf_node]; rfl

/-- The loop of `DoWithAll`, in both directions. -/
def doWithAllLoop (fFromLeft : Bool) (pfnCallBack : KAvlCallback κ δ σ) :
    KAvlStack2 κ δ → σ → Option (Int × σ)
  | [], pvParam => some (0, pvParam)
  | (.null, _) :: _, _ => none
  | (.node p left right, flag) :: rest, pvParam =>
    let first := if fFromLeft then left else right
    let last := if fFromLeft then right else left
    if flag = false ∧ isNull first = false then
      if kAvlMaxStack ≤ rest.length + 1 then none
      else doWithAllLoop fFromLeft pfnCallBack
        ((first, false) :: (.node p left right, true) :: rest) pvParam
    else
      let (rc, pvParam) := pfnCallBack pvParam p.entry
      if rc ≠ 0 then some (rc, pvParam)
      else if isNull last then doWithAllLoop fFromLeft pfnCallBack rest pvParam
      else if kAvlMaxStack ≤ rest.length then none
      else doWithAllLoop fFromLeft pfnCallBack ((last, false) :: rest) pvParam
  termination_by stack => roundsLeft fFromLeft stack
  decreasing_by
    all_goals
      cases fFromLeft <;> cases flag <;>
        simp_all [roundsLeft, roundsLeft_false] <;> omega

/-- `DoWithAll`. -/
def kAvlDoWithAll (t : KAvlTree κ δ) (fFromLeft : Bool) (pfnCallBack : KAvlCallback κ δ σ)
    (pvParam : σ) : Option (Int × σ) :=
  if isNull t then some (0, pvParam)
  else doWithAllLoop fFromLeft pfnCallBack [(t, false)] pvParam

/-! ### Destruction -/

/-- How many rounds the loop of `Destroy` has left. -/
def destroyRounds : KAvlStack κ δ → Nat
  | [] => 0
  | f :: fs => 2 * countOf f.sibling + 1 + destroyRounds fs

/-- The loop of `Destroy`: the node on top of the stack, below it the way to the root. -/
def destroyLoop (pfnCallBack : KAvlCallback κ δ σ) :
    KAvlStack κ δ → KAvlTree κ δ → σ → Option (Int × σ × KAvlTree κ δ)
  | _, .null, _ => none
  | fs, .node p (.node l leftLeft leftRight) right, pvUser =>
    if kAvlMaxStack ≤ fs.length + 1 then none
    else destroyLoop pfnCallBack (.left p right :: fs) (.node l leftLeft leftRight) pvUser
  | fs, .node p .null (.node r rightLeft rightRight), pvUser =>
    if kAvlMaxStack ≤ fs.length + 1 then none
    else destroyLoop pfnCallBack (.right p .null :: fs) (.node r rightLeft rightRight) pvUser
  | [], .node p .null .null, pvUser =>
    let (rc, pvUser) := pfnCallBack pvUser p.entry
    some (rc, pvUser, .null)
  | f :: fs, .node p .null .null, pvUser =>
    -- the parent's link is cleared before the callback
    let (rc, pvUser) := pfnCallBack pvUser p.entry
    if rc ≠ 0 then some (rc, pvUser, plugAll (f :: fs) .null)
    else destroyLoop pfnCallBack fs (f.plug .null) pvUser
  termination_by fs t => destroyRounds fs + 2 * countOf t
  decreasing_by
    · simp only [destroyRounds, Frame.sibling, countOf_node]
      omega
    · simp only [destroyRounds, Frame.sibling, countOf_node]
      omega
    · cases f <;> simp only [destroyRounds, Frame.sibling, Frame.plug, countOf_node] <;> omega

/-- `Destroy`: the value, the user parameter and what is left of the tree. -/
def kAvlDestroy (t : KAvlTree κ δ) (pfnCallBack : KAvlCallback κ δ σ) (pvUser : σ) :
    Option (Int × σ × KAvlTree κ δ) :=
  if isNull t then some (0, pvUser, t)
  else destroyLoop pfnCallBack [] t pvUser

/-! ### The stack they take -/

variable {fFromLeft : Bool}

section Stack

variable {pfnCallBack : KAvlCallback κ δ σ}

theorem not_isNull {t : KAvlTree κ δ} (some : isNull t = false) : 0 < t.depth := by
  cases t with
  | null => cases some
  | node p left right => exact Nat.succ_pos _

/-- The nodes on the stack have room for their levels. -/
def StackFits : KAvlStack2 κ δ → Prop
  | [] => True
  | (t, _) :: rest => isNull t = false ∧ rest.length + t.depth ≤ kAvlMaxStack ∧ StackFits rest

theorem doWithAllLoop_fits {stack : KAvlStack2 κ δ} {pvParam : σ} (fits : StackFits stack) :
    doWithAllLoop fFromLeft pfnCallBack stack pvParam ≠ none := by
  fun_induction doWithAllLoop fFromLeft pfnCallBack stack pvParam with
  | case1 => exact some_ne_none _
  | case2 => cases fits.1
  | case3 p left right flag rest pvParam first descends full =>
    obtain ⟨-, room, -⟩ := fits
    have below : first.depth < (Lib.Tree.node p left right).depth := by
      cases fFromLeft <;> simp only [first, Lib.Tree.depth, Bool.false_eq_true, dif_neg, dif_pos,
        not_false_eq_true] <;> omega
    have some := not_isNull descends.2
    omega
  | case4 p left right flag rest pvParam first descends room ih =>
    obtain ⟨-, levels, tail⟩ := fits
    have below : first.depth < (Lib.Tree.node p left right).depth := by
      cases fFromLeft <;> simp only [first, Lib.Tree.depth, Bool.false_eq_true, dif_neg, dif_pos,
        not_false_eq_true] <;> omega
    refine ih ⟨descends.2, ?_, rfl, levels, tail⟩
    rw [length_cons]
    omega
  | case5 => exact some_ne_none _
  | case6 p left right flag rest pvParam first last visited rc pvParam' called succeeded empty ih =>
    exact ih fits.2.2
  | case7 p left right flag rest pvParam first last visited rc pvParam' called succeeded some
      full =>
    obtain ⟨-, levels, -⟩ := fits
    rw [Lib.Tree.depth] at levels
    omega
  | case8 p left right flag rest pvParam first last visited rc pvParam' called succeeded some room
      ih =>
    obtain ⟨-, levels, tail⟩ := fits
    have below : last.depth < (Lib.Tree.node p left right).depth := by
      cases fFromLeft <;> simp only [last, Lib.Tree.depth, Bool.false_eq_true, dif_neg, dif_pos,
        not_false_eq_true] <;> omega
    refine ih ⟨Bool.eq_false_of_not_eq_true some, ?_, tail⟩
    omega

/-- Iteration has stack enough for the levels of the tree. -/
theorem kAvlDoWithAll_fits {t : KAvlTree κ δ} (levels : t.depth ≤ kAvlMaxStack) (fFromLeft : Bool)
    (pvParam : σ) : kAvlDoWithAll t fFromLeft pfnCallBack pvParam ≠ none := by
  rw [kAvlDoWithAll]
  split
  · exact some_ne_none _
  · rename_i some
    refine doWithAllLoop_fits ⟨Bool.eq_false_of_not_eq_true some, ?_, trivial⟩
    rwa [length_nil, Nat.zero_add]

theorem rootDepth_mono {fs : KAvlStack κ δ} {h h' : Nat} (le : h ≤ h') :
    rootDepth fs h ≤ rootDepth fs h' := by
  induction fs generalizing h h' with
  | nil => exact le
  | cons f fs ih => exact ih (by omega)

theorem destroyLoop_fits {fs : KAvlStack κ δ} {t : KAvlTree κ δ} {pvUser : σ}
    (some : isNull t = false) (levels : (plugAll fs t).depth ≤ kAvlMaxStack) :
    destroyLoop pfnCallBack fs t pvUser ≠ none := by
  fun_induction destroyLoop pfnCallBack fs t pvUser with
  | case1 => cases some
  | case2 fs p l leftLeft leftRight right pvUser full =>
    rw [depth_plugAll] at levels
    have up := add_length_le_rootDepth fs (Lib.Tree.node p (.node l leftLeft leftRight) right).depth
    simp only [Lib.Tree.depth] at up levels
    omega
  | case3 fs p l leftLeft leftRight right pvUser room ih => exact ih rfl levels
  | case4 fs p r rightLeft rightRight pvUser full =>
    rw [depth_plugAll] at levels
    have up := add_length_le_rootDepth fs
      (Lib.Tree.node p .null (.node r rightLeft rightRight)).depth
    simp only [Lib.Tree.depth] at up levels
    omega
  | case5 fs p r rightLeft rightRight pvUser room ih => exact ih rfl levels
  | case6 => exact some_ne_none _
  | case7 => exact some_ne_none _
  | case8 f fs p pvUser rc pvUser' called succeeded ih =>
    refine ih ?_ ?_
    · cases f <;> rfl
    · rw [depth_plugAll] at levels
      rw [← plugAll, depth_plugAll]
      exact (rootDepth_mono (Nat.zero_le _)).trans levels

theorem kAvlDestroy_fits {t : KAvlTree κ δ} (levels : t.depth ≤ kAvlMaxStack) (pvUser : σ) :
    kAvlDestroy t pfnCallBack pvUser ≠ none := by
  rw [kAvlDestroy]
  split
  · exact some_ne_none _
  · rename_i some
    exact destroyLoop_fits (Bool.eq_false_of_not_eq_true some) levels

end Stack

/-! ### What an iteration visits -/

section Order

variable {pfnCallBack : KAvlCallback κ δ σ}

/-- The nodes in the order of an iteration. -/
def orderOf (fFromLeft : Bool) (t : KAvlTree κ δ) : List (KAvlEntry κ δ) :=
  if fFromLeft then entries t else (entries t).reverse

theorem orderOf_node (fFromLeft : Bool) (p : KAvlNode κ δ) (left right : KAvlTree κ δ) :
    orderOf fFromLeft (.node p left right) =
      orderOf fFromLeft (if fFromLeft then left else right) ++
        p.entry :: orderOf fFromLeft (if fFromLeft then right else left) := by
  cases fFromLeft with
  | true => exact entries_node p left right
  | false => simp [orderOf, entries_node]

/-- The nodes that are still to be visited. -/
def pending (fFromLeft : Bool) : KAvlStack2 κ δ → List (KAvlEntry κ δ)
  | [] => []
  | (.null, _) :: rest => pending fFromLeft rest
  | (.node p left right, flag) :: rest =>
    (if flag then p.entry :: orderOf fFromLeft (if fFromLeft then right else left)
      else orderOf fFromLeft (.node p left right)) ++ pending fFromLeft rest

theorem pending_false (fFromLeft : Bool) (t : KAvlTree κ δ) (rest : KAvlStack2 κ δ) :
    pending fFromLeft ((t, false) :: rest) = orderOf fFromLeft t ++ pending fFromLeft rest := by
  cases t with
  | null => cases fFromLeft <;> rfl
  | node p left right => rfl

theorem orderOf_isNull {t : KAvlTree κ δ} (none : isNull t = true) : orderOf fFromLeft t = [] := by
  cases t with
  | null => cases fFromLeft <;> rfl
  | node p left right => cases none

/-- A node whose first subtree is done, or empty, is the next. -/
theorem pending_center {flag : Bool} {p : KAvlNode κ δ} {left right : KAvlTree κ δ}
    {rest : KAvlStack2 κ δ}
    (center : ¬ (flag = false ∧ isNull (if fFromLeft then left else right) = false)) :
    pending fFromLeft ((.node p left right, flag) :: rest) =
      p.entry :: (orderOf fFromLeft (if fFromLeft then right else left) ++
        pending fFromLeft rest) := by
  cases flag with
  | true => rfl
  | false =>
    have none : isNull (if fFromLeft then left else right) = true := by
      by_contra some
      exact center ⟨rfl, Bool.eq_false_of_not_eq_true some⟩
    rw [pending_false, orderOf_node, orderOf_isNull none]
    rfl

theorem doWithAllLoop_visits {stack : KAvlStack2 κ δ} {pvParam : σ}
    (succeeds : ∀ s a, (pfnCallBack s a).1 = 0) (fits : StackFits stack) :
    doWithAllLoop fFromLeft pfnCallBack stack pvParam =
      some (0, (pending fFromLeft stack).foldl (fun s a => (pfnCallBack s a).2) pvParam) := by
  fun_induction doWithAllLoop fFromLeft pfnCallBack stack pvParam with
  | case1 => rfl
  | case2 => cases fits.1
  | case3 p left right flag rest pvParam first descends full =>
    obtain ⟨-, room, -⟩ := fits
    have below : first.depth < (Lib.Tree.node p left right).depth := by
      cases fFromLeft <;> simp only [first, Lib.Tree.depth, Bool.false_eq_true, dif_neg, dif_pos,
        not_false_eq_true] <;> omega
    have some := not_isNull descends.2
    omega
  | case4 p left right flag rest pvParam first descends room ih =>
    obtain ⟨-, levels, tail⟩ := fits
    have below : first.depth < (Lib.Tree.node p left right).depth := by
      cases fFromLeft <;> simp only [first, Lib.Tree.depth, Bool.false_eq_true, dif_neg, dif_pos,
        not_false_eq_true] <;> omega
    have same : pending fFromLeft ((first, false) :: (.node p left right, true) :: rest) =
        pending fFromLeft ((.node p left right, flag) :: rest) := by
      rw [descends.1, pending_false, pending_false, orderOf_node, append_assoc]
      cases fFromLeft <;> rfl
    rw [← same]
    refine ih ⟨descends.2, ?_, rfl, levels, tail⟩
    rw [length_cons]
    omega
  | case5 p left right flag rest pvParam first visited rc pvParam' called failed =>
    have fine := succeeds pvParam p.entry
    rw [called] at fine
    exact absurd fine failed
  | case6 p left right flag rest pvParam first last visited rc pvParam' called succeeded empty ih =>
    have none : orderOf fFromLeft (if fFromLeft then right else left) = [] := orderOf_isNull empty
    rw [pending_center visited, foldl_cons, called, none, ih fits.2.2]
    rfl
  | case7 p left right flag rest pvParam first last visited rc pvParam' called succeeded some
      full =>
    obtain ⟨-, levels, -⟩ := fits
    rw [Lib.Tree.depth] at levels
    omega
  | case8 p left right flag rest pvParam first last visited rc pvParam' called succeeded some room
      ih =>
    obtain ⟨-, levels, tail⟩ := fits
    have below : last.depth < (Lib.Tree.node p left right).depth := by
      cases fFromLeft <;> simp only [last, Lib.Tree.depth, Bool.false_eq_true, dif_neg, dif_pos,
        not_false_eq_true] <;> omega
    have rest' := ih ⟨Bool.eq_false_of_not_eq_true some, by omega, tail⟩
    rw [pending_false] at rest'
    rw [pending_center visited, foldl_cons, called]
    exact rest'

/-- An iteration with a callback that succeeds visits every node. -/
theorem kAvlDoWithAll_visits {t : KAvlTree κ δ} (succeeds : ∀ s a, (pfnCallBack s a).1 = 0)
    (levels : t.depth ≤ kAvlMaxStack) (fFromLeft : Bool) (pvParam : σ) :
    kAvlDoWithAll t fFromLeft pfnCallBack pvParam =
      some (0, (orderOf fFromLeft t).foldl (fun s a => (pfnCallBack s a).2) pvParam) := by
  rw [kAvlDoWithAll]
  split
  · rename_i none
    rw [orderOf_isNull none]
    rfl
  · rename_i some
    have fits : StackFits [(t, false)] := by
      refine ⟨Bool.eq_false_of_not_eq_true some, ?_, trivial⟩
      rwa [length_nil, Nat.zero_add]
    rw [doWithAllLoop_visits succeeds fits, pending_false, pending, append_nil]

end Order

end VBox.Runtime
