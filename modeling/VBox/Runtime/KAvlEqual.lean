import VBox.Runtime.KAvlDoWithAll

/-!
AVL trees with duplicate keys (`KAVL_EQUAL_ALLOWED`).

A node of the tree heads the list of the other nodes with its key. `offset` says whether
`KAVL_OFFSET` is defined, where links are relative to their own address and 0 is the null link.
-/

namespace VBox.Runtime

open VBox.Lib

variable {κ ν σ : Type}

/-- A node in the tree and its `pList`. -/
structure KAvlEquals (ν : Type) where
  pNode : ν
  pList : List ν
  deriving DecidableEq, Repr

/-- A tree whose nodes are known by their addresses. -/
abbrev KAvlEqualTree (κ ν : Type) := KAvlTree κ (KAvlEquals ν)

def KAvlEquals.all (e : KAvlEquals ν) : List ν := e.pNode :: e.pList

/-- The node that heads these in the tree. -/
def KAvlNode.withEquals (p : KAvlNode κ (KAvlEquals ν)) (e : KAvlEquals ν) :
    KAvlNode κ (KAvlEquals ν) := { p with entry := { p.entry with data := e } }

/-! ### Insertion and removal -/

section Search

variable [LinearOrder κ]

/-- Where the search of `Insert` ends: at an empty link or at a node with the key. -/
inductive EqualPlace (κ ν : Type) where
  | free (fs : KAvlStack κ (KAvlEquals ν))
  | equal (fs : KAvlStack κ (KAvlEquals ν)) (p : KAvlNode κ (KAvlEquals ν))
    (left right : KAvlEqualTree κ ν)

/-- The search of `Insert`. -/
def equalSearch (Key : κ) : KAvlEqualTree κ ν → KAvlStack κ (KAvlEquals ν) →
    Option (EqualPlace κ ν)
  | .null, fs => some (.free fs)
  | .node p left right, fs =>
    if kAvlMaxStack ≤ fs.length then none
    else if p.entry.Key = Key then some (.equal fs p left right)
    else if Key < p.entry.Key then equalSearch Key left (.left p right :: fs)
    else equalSearch Key right (.right p left :: fs)

/-- A node as it is put into the tree. -/
def alone (key : ν → κ) (pNode : ν) : KAvlEntry κ (KAvlEquals ν) :=
  ⟨key pNode, key pNode, ⟨pNode, []⟩⟩

/-- `Insert`. -/
def kAvlInsertEqual (key : ν → κ) (t : KAvlEqualTree κ ν) (pNode : ν) :
    Option (Bool × KAvlEqualTree κ ν) :=
  match equalSearch (key pNode) t [] with
  | none => none
  | some (.equal fs p left right) =>
    let e := p.entry.data
    some (true, plugAll fs (.node (p.withEquals ⟨e.pNode, pNode :: e.pList⟩) left right))
  | some (.free fs) =>
    (rebalance fs (.node ⟨alone key pNode, 1⟩ .null .null)).map fun t' => (true, t')

/-- The search of `RemoveNode`, with the way down to the node. -/
def locate (Key : κ) : KAvlEqualTree κ ν → KAvlStack κ (KAvlEquals ν) →
    Option (KAvlStack κ (KAvlEquals ν) × KAvlNode κ (KAvlEquals ν) × KAvlEqualTree κ ν ×
      KAvlEqualTree κ ν)
  | .null, _ => none
  | .node p left right, fs =>
    if p.entry.Key = Key then some (fs, p, left, right)
    else if Key < p.entry.Key then locate Key left (.left p right :: fs)
    else locate Key right (.right p left :: fs)

/-- `RemoveNode`: the node that was removed. -/
def kAvlRemoveNode [DecidableEq ν] (key : ν → κ) (t : KAvlEqualTree κ ν) (pNode : ν) :
    Option (Option ν × KAvlEqualTree κ ν) :=
  match locate (key pNode) t [] with
  | none => some (none, t)
  | some (fs, p, left, right) =>
    let e := p.entry.data
    if e.pNode ≠ pNode then
      if pNode ∈ e.pList then
        some (some pNode,
          plugAll fs (.node (p.withEquals ⟨e.pNode, e.pList.erase pNode⟩) left right))
      else some (none, t)
    else
      match e.pList with
      | [] => (kAvlRemove t (key pNode)).map fun r => (some pNode, r.2)
      | pNewUs :: pList =>
        some (some pNode, plugAll fs (.node (p.withEquals ⟨pNewUs, pList⟩) left right))

/-- `RemoveBestFit`. -/
def kAvlRemoveBestFitEqual (t : KAvlEqualTree κ ν) (Key : κ) (fAbove : Bool) :
    Option (Option ν × KAvlEqualTree κ ν) :=
  match kAvlGetBestFit t Key fAbove with
  | none => some (none, t)
  | some found =>
    match locate found.Key t [] with
    | none => none
    | some (fs, p, left, right) =>
      match p.entry.data.pList with
      | pRet :: pList =>
        some (some pRet,
          plugAll fs (.node (p.withEquals ⟨p.entry.data.pNode, pList⟩) left right))
      | [] => (kAvlRemove t p.entry.Key).map fun r => (r.1.map fun a => a.data.pNode, r.2)

end Search

/-! ### Iteration and destruction -/

/-- The callback for nodes of one key. -/
def callAll (pfnCallBack : σ → ν → Int × σ) : List ν → σ → Int × σ
  | [], pvParam => (0, pvParam)
  | p :: ps, pvParam =>
    let (rc, pvParam) := pfnCallBack pvParam p
    if rc ≠ 0 then (rc, pvParam) else callAll pfnCallBack ps pvParam

/-- `DoWithAll`. -/
def kAvlDoWithAllEqual (t : KAvlEqualTree κ ν) (fFromLeft : Bool)
    (pfnCallBack : σ → ν → Int × σ) (pvParam : σ) : Option (Int × σ) :=
  kAvlDoWithAll t fFromLeft (fun pvParam e => callAll pfnCallBack e.data.all pvParam) pvParam

/-- A link after `KAVL_SET_POINTER` of a pointer that may be `NULL`: `none` is the null link,
`some none` a link to the address 0. -/
def setPointer (offset : Bool) : Option ν → Option (Option ν)
  | some p => some (some p)
  | none => if offset then some none else none

/-- The loop of `Destroy` over the nodes with the key of one that is to be unlinked; `none` where
the address 0 is read. -/
def destroyEquals (offset : Bool) (pfnCallBack : σ → ν → σ) : List ν → σ → Option σ
  | [], pvUser => some pvUser
  | pEqual :: rest, pvUser =>
    let pvUser := pfnCallBack pvUser pEqual
    match setPointer offset rest.head? with
    | none => some pvUser
    | some none => none
    | some (some _) => destroyEquals offset pfnCallBack rest pvUser

/-- The loop of `Destroy`, with a callback that succeeds. -/
def destroyEqualLoop (offset : Bool) (pfnCallBack : σ → ν → σ) :
    KAvlStack κ (KAvlEquals ν) → KAvlEqualTree κ ν → σ → Option (σ × KAvlEqualTree κ ν)
  | _, .null, _ => none
  | fs, .node p (.node l leftLeft leftRight) right, pvUser =>
    if kAvlMaxStack ≤ fs.length + 1 then none
    else destroyEqualLoop offset pfnCallBack (.left p right :: fs) (.node l leftLeft leftRight)
      pvUser
  | fs, .node p .null (.node r rightLeft rightRight), pvUser =>
    if kAvlMaxStack ≤ fs.length + 1 then none
    else destroyEqualLoop offset pfnCallBack (.right p .null :: fs) (.node r rightLeft rightRight)
      pvUser
  | [], .node p .null .null, pvUser =>
    (destroyEquals offset pfnCallBack p.entry.data.pList pvUser).map fun pvUser =>
      (pfnCallBack pvUser p.entry.data.pNode, .null)
  | f :: fs, .node p .null .null, pvUser =>
    match destroyEquals offset pfnCallBack p.entry.data.pList pvUser with
    | none => none
    | some pvUser => destroyEqualLoop offset pfnCallBack fs (f.plug .null)
        (pfnCallBack pvUser p.entry.data.pNode)
  termination_by fs t => destroyRounds fs + 2 * countOf t
  decreasing_by
    · simp only [destroyRounds, Frame.sibling, countOf_node]
      omega
    · simp only [destroyRounds, Frame.sibling, countOf_node]
      omega
    · cases f <;> simp only [destroyRounds, Frame.sibling, Frame.plug, countOf_node] <;> omega

/-- `Destroy`, with a callback that succeeds. -/
def kAvlDestroyEqual (offset : Bool) (t : KAvlEqualTree κ ν) (pfnCallBack : σ → ν → σ)
    (pvUser : σ) : Option (σ × KAvlEqualTree κ ν) :=
  if isNull t then some (pvUser, t)
  else destroyEqualLoop offset pfnCallBack [] t pvUser

end VBox.Runtime
