import VBox.Lib.Wildcard

/-!
Simple string patterns.

A terminated string is the list of its characters. A text with a limit is a memory that goes on
behind it, and what is examined of it is kept, by index.
-/

namespace VBox.Runtime.SimplePattern

open VBox.Lib.Wildcard (Token)

def chAsterisk : UInt8 := 0x2a
def chQuestion : UInt8 := 0x3f
def chPipe : UInt8 := 0x7c

/-! ### Terminated strings -/

/-- A terminated string: its characters, none of which is the terminator. -/
def CString : Type := { s : List UInt8 // 0 ∉ s }

/-- Look for a character, and for what is to follow it. -/
def find (chPat : UInt8) (rest : List UInt8 → Bool) : List UInt8 → Bool
  | [] => false
  | chStr :: str => (chStr == chPat && rest str) || find chPat rest str

/-- `RTStrSimplePatternMatch`; the flag says that the loop behind an asterisk is skipping. -/
def simplePatternMatch : Bool → List UInt8 → List UInt8 → Bool
  | false, [], str => str.isEmpty
  | true, [], _ => true
  | false, chPat :: pat, str =>
    if chPat = chAsterisk then simplePatternMatch true pat str
    else
      match str with
      | [] => false
      | chStr :: str =>
        if chPat = chQuestion ∨ chStr = chPat then simplePatternMatch false pat str else false
  | true, chPat :: pat, str =>
    if chPat = chAsterisk ∨ chPat = chQuestion then simplePatternMatch true pat str
    else find chPat (simplePatternMatch false pat) str

/-- `RTStrSimplePatternMatch`. -/
def rtStrSimplePatternMatch (pszPattern pszString : List UInt8) : Bool :=
  simplePatternMatch false pszPattern pszString

/-! ### Texts with a limit -/

/-- An answer, with the indices examined in the pattern and in the string. -/
structure Answer where
  matched : Bool
  pattern : List Nat
  string : List Nat
  deriving DecidableEq

namespace Answer

def done (matched : Bool) : Answer := ⟨matched, [], []⟩

/-- A character is examined first. -/
def readPattern (i : Nat) (answer : Answer) : Answer :=
  { answer with pattern := i :: answer.pattern }

def readString (i : Nat) (answer : Answer) : Answer :=
  { answer with string := i :: answer.string }

/-- The answer, or another one if there is no match. -/
def orElse (answer other : Answer) : Answer :=
  if answer.matched then answer
  else ⟨other.matched, answer.pattern ++ other.pattern, answer.string ++ other.string⟩

end Answer

/-- The loop that looks for a character and tries the rest of the pattern behind it. -/
def nFind (str : Nat → UInt8) (chPat : UInt8) (rest : Nat → Nat → Answer) : Nat → Nat → Answer
  | 0, _ => .done false
  | cchString + 1, iStr =>
    .readString iStr <|
      if str iStr = chPat then
        (rest cchString (iStr + 1)).orElse (nFind str chPat rest cchString (iStr + 1))
      else if str iStr = 0 then .done false
      else nFind str chPat rest cchString (iStr + 1)

/-- The pattern is at its end. -/
def nEnd (str : Nat → UInt8) (cchString iStr : Nat) : Answer :=
  if cchString = 0 then .done true else .readString iStr (.done (str iStr = 0))

/-- `RTStrSimplePatternNMatch`, with the pattern from `iPat` and the string from `iStr` on. -/
def nMatch (pat str : Nat → UInt8) : Nat → Nat → Nat → Nat → Bool → Answer
  | 0, _, cchString, iStr, false => nEnd str cchString iStr
  | 0, _, _, _, true => .done true
  | cchPattern + 1, iPat, cchString, iStr, false =>
    .readPattern iPat <|
      if pat iPat = chAsterisk then nMatch pat str cchPattern (iPat + 1) cchString iStr true
      else if pat iPat = 0 then nEnd str cchString iStr
      else
        match cchString with
        | 0 => .done false
        | cchString + 1 =>
          .readString iStr <|
            if pat iPat = chQuestion then
              if str iStr = 0 then .done false
              else nMatch pat str cchPattern (iPat + 1) cchString (iStr + 1) false
            else if str iStr = pat iPat then
              nMatch pat str cchPattern (iPat + 1) cchString (iStr + 1) false
            else .done false
  | cchPattern + 1, iPat, cchString, iStr, true =>
    .readPattern iPat <|
      if pat iPat = chAsterisk ∨ pat iPat = chQuestion then
        nMatch pat str cchPattern (iPat + 1) cchString iStr true
      else if pat iPat = 0 then .done true
      else
        nFind str (pat iPat) (fun cchString iStr =>
          nMatch pat str cchPattern (iPat + 1) cchString iStr false) cchString iStr

/-- `RTStrSimplePatternNMatch`. -/
def rtStrSimplePatternNMatch (pszPattern : Nat → UInt8) (cchPattern : Nat)
    (pszString : Nat → UInt8) (cchString : Nat) : Answer :=
  nMatch pszPattern pszString cchPattern 0 cchString 0 false

/-! ### Several patterns -/

/-- The offset of the pattern that matches, if any, with the indices examined. -/
structure MultiAnswer where
  offMatchingPattern : Option Nat
  patterns : List Nat
  string : List Nat
  deriving DecidableEq

def MultiAnswer.readPatterns (i : Nat) (answer : MultiAnswer) : MultiAnswer :=
  { answer with patterns := i :: answer.patterns }

/-- The head of the outer loop, with the rest of the loop. -/
def multiHead (pats : Nat → UInt8) (cchPatterns iCur : Nat) (loop : MultiAnswer) : MultiAnswer :=
  .readPatterns iCur <| if pats iCur = 0 ∨ cchPatterns = 0 then ⟨none, [], []⟩ else loop

/-- Try the pattern between two indices, and go on if it does not match. -/
def multiTry (pats str : Nat → UInt8) (cchString iCur iEnd : Nat) (next : MultiAnswer) :
    MultiAnswer :=
  let answer := nMatch pats str (iEnd - iCur) iCur cchString 0 false
  if answer.matched then ⟨some iCur, answer.pattern, answer.string⟩
  else ⟨next.offMatchingPattern, answer.pattern ++ next.patterns, answer.string ++ next.string⟩

/-- The search for the end of the current pattern, and what follows it. -/
def multiScan (pats str : Nat → UInt8) (cchString : Nat) : Nat → Nat → Nat → MultiAnswer
  | 0, iCur, iEnd => multiTry pats str cchString iCur iEnd ⟨none, [], []⟩
  | cchPatterns + 1, iCur, iEnd =>
    .readPatterns iEnd <|
      if pats iEnd = 0 then multiTry pats str cchString iCur iEnd ⟨none, [], []⟩
      else if pats iEnd = chPipe then
        multiTry pats str cchString iCur iEnd <|
          multiHead pats cchPatterns (iEnd + 1)
            (multiScan pats str cchString cchPatterns (iEnd + 1) (iEnd + 1))
      else multiScan pats str cchString cchPatterns iCur (iEnd + 1)

/-- `RTStrSimplePatternMultiMatch`. -/
def rtStrSimplePatternMultiMatch (pszPatterns : Nat → UInt8) (cchPatterns : Nat)
    (pszString : Nat → UInt8) (cchString : Nat) : MultiAnswer :=
  multiHead pszPatterns cchPatterns 0 (multiScan pszPatterns pszString cchString cchPatterns 0 0)

/-! ### What the header says -/

/-- The meaning of a character of a pattern. -/
def token (ch : UInt8) : Token UInt8 :=
  if ch = chAsterisk then .star else if ch = chQuestion then .any else .char ch

/-- A text, cut at its limit or its terminator. -/
def cut (text : Nat → UInt8) : Nat → Nat → List UInt8
  | 0, _ => []
  | cch + 1, i => if text i = 0 then [] else text i :: cut text cch (i + 1)

/-- The alternatives between pipes with their offsets; `pre` has been read of the first one. -/
def alternatives (off : Nat) (pre : List UInt8) : List UInt8 → List (Nat × List UInt8)
  | [] => [(off, pre)]
  | ch :: text =>
    if ch = chPipe then (off, pre) :: alternatives (off + pre.length + 1) [] text
    else alternatives off (pre ++ [ch]) text

/-- None of the alternatives matches before the last, and that is empty. -/
def overlooked (str : List UInt8) : List (Nat × List UInt8) → Bool
  | [] => false
  | [alternative] => alternative.2.isEmpty
  | alternative :: next :: rest =>
    !rtStrSimplePatternMatch alternative.2 str && overlooked str (next :: rest)

end VBox.Runtime.SimplePattern
