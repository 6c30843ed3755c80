import VBox.Runtime.KAvlRuns

/-!
Unique string spaces (`Runtime/common/string/strspace.cpp`).

The tree is the `KAVL_EQUAL_ALLOWED` variant over a 32-bit hash of the string. A node of the tree
holds the list of the strings with its hash: the string that is the tree node, then the ones on its
`pList`. A string is the list of its characters in front of the terminator. `none` stands for a
stack entry beyond `KAVL_MAX_STACK`.
-/

namespace VBox.Runtime

open VBox.Lib List

/-- The characters of a string, without the terminator. -/
structure CString where
  chars : List UInt8
  noNul : 0 ∉ chars
  deriving DecidableEq, Repr

/-- The string as far as its first `n` characters. -/
def CString.cut (s : CString) (n : Nat) : CString :=
  ⟨s.chars.take n, fun nul => s.noNul (List.mem_of_mem_take nul)⟩

/-- `RTSTRSPACECORE` without its links: a node at some address, and its string. -/
structure StrSpaceCore where
  address : Nat
  pszString : CString
  cchString : Nat
  deriving DecidableEq, Repr

abbrev StrSpaceTree := KAvlTree Nat (List StrSpaceCore)

/-! ### Hashing -/

def sdbmStep (hash : UInt32) (c : UInt8) : UInt32 :=
  c.toUInt32 + (hash <<< 6) + (hash <<< 16) - hash

/-- The loop of `sdbm`, over the characters with the terminator. -/
def sdbmLoop : List UInt8 → UInt32 → Nat → UInt32 × Nat
  | [], hash, cch => (hash, cch)
  | c :: rest, hash, cch =>
      if c ≠ 0 then sdbmLoop rest (sdbmStep hash c) (cch + 1) else (hash, cch)

/-- `sdbm`: the hash and the length. -/
def sdbm (str : CString) : UInt32 × Nat := sdbmLoop (str.chars ++ [0]) 0 0

/-- The loop of `sdbmN`. -/
def sdbmNLoop : List UInt8 → Nat → UInt32 → Nat → UInt32 × Nat
  | [], _, hash, cch => (hash, cch)
  | c :: rest, cchMax, hash, cch =>
      if c ≠ 0 ∧ 0 < cchMax then sdbmNLoop rest (cchMax - 1) (sdbmStep hash c) (cch + 1)
      else (hash, cch)

def sdbmN (str : CString) (cchMax : Nat) : UInt32 × Nat :=
  sdbmNLoop (str.chars ++ [0]) cchMax 0 0

/-! ### The tree -/

/-- `Get`: the list at the node with the key. -/
def kAvlGet (Key : Nat) : StrSpaceTree → Option (List StrSpaceCore)
  | .null => none
  | .node p left right =>
      if p.entry.Key = Key then some p.entry.data
      else if Key < p.entry.Key then kAvlGet Key left
      else kAvlGet Key right

/-- Change the list at the node with the key. -/
def changeList (Key : Nat) (f : List StrSpaceCore → List StrSpaceCore) :
    StrSpaceTree → StrSpaceTree
  | .null => .null
  | .node p left right =>
      if p.entry.Key = Key then
        .node { p with entry := { p.entry with data := f p.entry.data } } left right
      else if Key < p.entry.Key then .node p (changeList Key f left) right
      else .node p left (changeList Key f right)

/-- Link a node in behind the head of a list. -/
def linkBehindHead (pStr : StrSpaceCore) : List StrSpaceCore → List StrSpaceCore
  | [] => [pStr]
  | pMatch :: pList => pMatch :: pStr :: pList

/-- Make `pList` the list behind the head. -/
def setList (pList : List StrSpaceCore) (list : List StrSpaceCore) : List StrSpaceCore :=
  list.take 1 ++ pList

/-- `Insert` with `KAVL_EQUAL_ALLOWED`. -/
def strSpaceAvlInsert (t : StrSpaceTree) (Key : Nat) (pNode : StrSpaceCore) :
    Option StrSpaceTree :=
  match insertSearch false ⟨Key, Key, [pNode]⟩ t [] with
  | none => none
  | some none => some (changeList Key (linkBehindHead pNode) t)
  | some (some fs) => rebalance fs (.node ⟨⟨Key, Key, [pNode]⟩, 1⟩ .null .null)

/-! ### The operations -/

/-- The comparison with the first `cchString` characters of a string. -/
def sameString (cchString : Nat) (pszString : CString) (pCur : StrSpaceCore) : Bool :=
  pCur.cchString == cchString &&
    pCur.pszString.chars.take cchString == pszString.chars.take cchString

/-- `RTStrSpaceInsert` of the node at an address. -/
def rtStrSpaceInsert (t : StrSpaceTree) (address : Nat) (pszString : CString) :
    Option (Bool × StrSpaceTree) :=
  let (hash, cchString) := sdbm pszString
  let pStr : StrSpaceCore := ⟨address, pszString, cchString⟩
  match kAvlGet hash.toNat t with
  | none => (strSpaceAvlInsert t hash.toNat pStr).map fun t => (true, t)
  | some list =>
      if list.any (sameString cchString pszString) then some (false, t)
      else some (true, changeList hash.toNat (linkBehindHead pStr) t)

/-- Unlink the first string of a list that is the same. -/
def unlinkString (cchString : Nat) (pszString : CString) :
    List StrSpaceCore → Option (StrSpaceCore × List StrSpaceCore)
  | [] => none
  | pCur :: rest =>
      if sameString cchString pszString pCur then some (pCur, rest)
      else (unlinkString cchString pszString rest).map fun (found, rest) => (found, pCur :: rest)

/-- Take the head of a list out of the tree and put the next node into its place. -/
def removeHead (t : StrSpaceTree) (Key : Nat) (pList : List StrSpaceCore) :
    Option (Option StrSpaceCore × StrSpaceTree) :=
  match kAvlRemove (changeList Key (setList []) t) Key with
  | none => none
  | some (pCur, t) =>
      let pCur := pCur.bind fun pNode => pNode.data.head?
      match pList with
      | [] => some (pCur, t)
      | pInsert :: pList =>
          (strSpaceAvlInsert t Key pInsert).map fun t => (pCur, changeList Key (setList pList) t)

/-- `RTStrSpaceRemove`. -/
def rtStrSpaceRemove (t : StrSpaceTree) (pszString : CString) :
    Option (Option StrSpaceCore × StrSpaceTree) :=
  let (hash, cchString) := sdbm pszString
  match kAvlGet hash.toNat t with
  | none => some (none, t)
  | some [] => some (none, t)
  | some (head :: pList) =>
      if sameString cchString pszString head then removeHead t hash.toNat pList
      else
        match unlinkString cchString pszString pList with
        | none => some (none, t)
        | some (pCur, pList) => some (some pCur, changeList hash.toNat (setList pList) t)

/-- The search of the two lookups. -/
def findString (t : StrSpaceTree) (key : UInt32 × Nat) (pszString : CString) :
    Option StrSpaceCore :=
  (kAvlGet key.1.toNat t).bind fun list => list.find? (sameString key.2 pszString)

/-- `RTStrSpaceGet`. -/
def rtStrSpaceGet (t : StrSpaceTree) (pszString : CString) : Option StrSpaceCore :=
  findString t (sdbm pszString) pszString

/-- `RTStrSpaceGetN`. -/
def rtStrSpaceGetN (t : StrSpaceTree) (pszString : CString) (cchMax : Nat) :
    Option StrSpaceCore :=
  findString t (sdbmN pszString cchMax) pszString

/-- The loop of `DoWithAll` from the left: the nodes the callback is called for, if it never fails.
An entry of the stack is a node that is not null, with the flag that its left subtree is done. -/
def doWithAll : Nat → List (Bool × StrSpaceTree) → Option (List StrSpaceCore)
  | _, [] => some []
  | 0, _ :: _ => none
  | _ + 1, (_, .null) :: _ => none
  | rounds + 1, (fDone, .node p left right) :: stack =>
      if fDone = false ∧ left ≠ .null then
        if kAvlMaxStack ≤ stack.length + 1 then none
        else doWithAll rounds ((false, left) :: (true, .node p left right) :: stack)
      else
        (doWithAll rounds (if right = .null then stack else (false, right) :: stack)).map
          (p.entry.data ++ ·)

/-- The rounds of the loop for a tree. -/
def doWithAllRounds : StrSpaceTree → Nat
  | .null => 0
  | .node _ left right =>
      (if left = .null then 1 else doWithAllRounds left + 2) + doWithAllRounds right

/-- `RTStrSpaceEnumerate`. -/
def rtStrSpaceEnumerate (t : StrSpaceTree) : Option (List StrSpaceCore) :=
  if t = .null then some [] else doWithAll (doWithAllRounds t) [(false, t)]

/-! ### Calls -/

inductive StrSpaceOp where
  | insert (address : Nat) (pszString : CString)
  | remove (pszString : CString)

/-- What a call returns: whether it inserted, or the node it removed. -/
inductive StrSpaceResult where
  | inserted (ok : Bool)
  | removed (pStr : Option StrSpaceCore)
  deriving DecidableEq, Repr

def StrSpaceOp.exec (t : StrSpaceTree) : StrSpaceOp → Option (StrSpaceResult × StrSpaceTree)
  | .insert address pszString =>
      (rtStrSpaceInsert t address pszString).map fun r => (.inserted r.1, r.2)
  | .remove pszString => (rtStrSpaceRemove t pszString).map fun r => (.removed r.1, r.2)

/-! ### The hash of a string -/

/-- The hash of the characters of a string. -/
def hashOf (chars : List UInt8) : UInt32 := chars.foldl sdbmStep 0

theorem sdbmLoop_eq {chars : List UInt8} (noNul : 0 ∉ chars) (hash : UInt32) (cch : Nat) :
    sdbmLoop (chars ++ [0]) hash cch = (chars.foldl sdbmStep hash, cch + chars.length) := by
  induction chars generalizing hash cch with
  | nil => rfl
  | cons c rest ih =>
    have apart : c ≠ 0 := fun nul => noNul (nul ▸ mem_cons_self)
    rw [cons_append, sdbmLoop, if_pos apart,
      ih fun nul => noNul (mem_cons_of_mem c nul), foldl_cons, length_cons]
    congr 1
    omega

theorem sdbm_eq (s : CString) : sdbm s = (hashOf s.chars, s.chars.length) := by
  rw [sdbm, sdbmLoop_eq s.noNul, Nat.zero_add]
  rfl

theorem sdbmNLoop_eq {chars : List UInt8} (noNul : 0 ∉ chars) (cchMax : Nat) (hash : UInt32)
    (cch : Nat) : sdbmNLoop (chars ++ [0]) cchMax hash cch =
      ((chars.take cchMax).foldl sdbmStep hash, cch + (chars.take cchMax).length) := by
  induction chars generalizing cchMax hash cch with
  | nil =>
    rw [nil_append, sdbmNLoop, if_neg fun both => both.1 rfl]
    simp
  | cons c rest ih =>
    have apart : c ≠ 0 := fun nul => noNul (nul ▸ mem_cons_self)
    rw [cons_append, sdbmNLoop]
    cases cchMax with
    | zero =>
      rw [if_neg fun both => Nat.lt_irrefl 0 both.2]
      simp
    | succ cchMax =>
      rw [if_pos ⟨apart, Nat.succ_pos _⟩, Nat.add_sub_cancel,
        ih fun nul => noNul (mem_cons_of_mem c nul), take_succ_cons,
        foldl_cons, length_cons]
      congr 1
      omega

/-- The two hashes agree on the string as far as it is read. -/
theorem sdbmN_eq (s : CString) (cchMax : Nat) : sdbmN s cchMax = sdbm (s.cut cchMax) := by
  rw [sdbm_eq, sdbmN, sdbmNLoop_eq s.noNul, Nat.zero_add]
  rfl

end VBox.Runtime
