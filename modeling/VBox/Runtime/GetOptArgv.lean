import VBox.Runtime.Utf8

/-!
Argument vectors and command lines.

An argument vector is written as a command line, its arguments quoted where that is needed, and a
command line is chopped up into arguments.
-/

namespace VBox.Runtime.GetOptArgv

open VBox.Runtime.Utf8

def chSpace : UInt8 := 0x20
def chDouble : UInt8 := 0x22
def chSingle : UInt8 := 0x27
def chBackslash : UInt8 := 0x5c

/-! ### Quoting -/

def quoteMsCrt : UInt32 := 0
def quoteBourneSh : UInt32 := 1
def quoteMask : UInt32 := 1

/-- `g_abmQuoteChars`, a row for each kind of quoting. -/
def quoteChars (fFlags : UInt32) : List UInt8 :=
  if fFlags &&& quoteMask = quoteMsCrt then
    [0xfe, 0xff, 0x0f, 0x00, 0x65, 0x00, 0x00, 0x50, 0, 0, 0, 0, 0, 0, 0, 0]
  else
    [0xfe, 0xff, 0x0f, 0x00, 0xd7, 0x07, 0x00, 0xd8, 0, 0, 0, 0, 0, 0, 0, 0]

/-- `ASMBitTest`. -/
def bitTest (bitmap : List UInt8) (bit : Nat) : Bool :=
  (bitmap.getD (bit / 8) 0).toNat.testBit (bit % 8)

/-- A character is in the table. -/
def inTable (fFlags : UInt32) (ch : UInt8) : Bool :=
  ch < 128 && bitTest (quoteChars fFlags) ch.toNat

/-- `rtGetOpArgvRequiresQuoting`. -/
def rtGetOpArgvRequiresQuoting (pszArg : List UInt8) (fFlags : UInt32) : Bool :=
  pszArg.any (inTable fFlags)

/-- `rtGetOptArgvMsCrtIsSlashQuote`. -/
def rtGetOptArgvMsCrtIsSlashQuote : List UInt8 → Bool
  | [] => true
  | ch :: psz => if ch = chBackslash then rtGetOptArgvMsCrtIsSlashQuote psz else ch == chDouble

/-- The characters of an argument, as they are quoted for the Microsoft CRT. -/
def putMsCrt : List UInt8 → List UInt8
  | [] => []
  | ch :: pszArg =>
    (if ch = chBackslash ∧ rtGetOptArgvMsCrtIsSlashQuote pszArg then [chBackslash, chBackslash]
      else if ch = chDouble then [chBackslash, chDouble]
      else [ch]) ++ putMsCrt pszArg

/-- The characters of an argument, as they are quoted for the Bourne shell. -/
def putBourneSh : List UInt8 → List UInt8
  | [] => []
  | ch :: pszArg =>
    (if ch = chSingle then [chSingle, chDouble, chSingle, chDouble, chSingle] else [ch]) ++
      putBourneSh pszArg

/-- An argument on the command line. -/
def putArg (fFlags : UInt32) (pszArg : List UInt8) : List UInt8 :=
  if !rtGetOpArgvRequiresQuoting pszArg fFlags then pszArg
  else if fFlags &&& quoteMask = quoteMsCrt then [chDouble] ++ putMsCrt pszArg ++ [chDouble]
  else [chSingle] ++ putBourneSh pszArg ++ [chSingle]

/-- The arguments behind the first one, with a space in front of each. -/
def putMore (fFlags : UInt32) : List (List UInt8) → List UInt8
  | [] => []
  | pszArg :: papszArgv => [chSpace] ++ putArg fFlags pszArg ++ putMore fFlags papszArgv

def putArgs (fFlags : UInt32) : List (List UInt8) → List UInt8
  | [] => []
  | pszArg :: papszArgv => putArg fFlags pszArg ++ putMore fFlags papszArgv

/-- `RTGetOptArgvToString`, which refuses unknown flags. -/
def rtGetOptArgvToString (papszArgv : List (List UInt8)) (fFlags : UInt32) :
    Option (List UInt8) :=
  if fFlags &&& ~~~quoteMask ≠ 0 then none else some (putArgs fFlags papszArgv)

/-! ### Chopping -/

inductive Status where
  | invalidParameter
  | string (rc : Error)
  deriving DecidableEq

/-- The separators that are taken if there are none given: space, tab, newline and return. -/
def defaultSeparators : List UInt8 := [0x20, 0x09, 0x0a, 0x0d]

/-- `rtGetOptIsUniCpInString`. -/
def rtGetOptIsUniCpInString (cp : Nat) (pszSeparators : List UInt8) : Bool :=
  match _ : rtStrGetCpEx pszSeparators with
  | .error _ => false
  | .ok (cpSep, pszSeparators') =>
    if cpSep = cp then true
    else if cpSep = 0 then false
    else rtGetOptIsUniCpInString cp pszSeparators'
  termination_by pszSeparators.length
  decreasing_by exact rtStrGetCpEx_length ‹_› ‹_›

/-- `rtGetOptIsCpInSet`, with a search for a plain character. -/
def rtGetOptIsCpInSet (cp : Nat) (pszSeparators : List UInt8) : Bool :=
  if cp ≤ 127 then pszSeparators.contains (UInt8.ofNat cp)
  else rtGetOptIsUniCpInString cp pszSeparators

/-- `rtGetOptSkipDelimiters`. -/
def rtGetOptSkipDelimiters (pszSeparators pszSrc : List UInt8) : Except Error (List UInt8) :=
  match _ : rtStrGetCpEx pszSrc with
  | .error rc => .error rc
  | .ok (cp, pszNext) =>
    if cp = 0 ∨ !rtGetOptIsCpInSet cp pszSeparators then .ok pszSrc
    else rtGetOptSkipDelimiters pszSeparators pszNext
  termination_by pszSrc.length
  decreasing_by exact rtStrGetCpEx_length ‹_› (by tauto)

/-- The loop that copies an argument: the argument, the last code point and what follows it. The
code point of the quote that is open, or none, comes first. -/
def copyArg (pszSeparators : List UInt8) (cpQuote : Nat) (pszSrc : List UInt8) :
    Except Error (List UInt8 × Nat × List UInt8) :=
  match _ : rtStrGetCpEx pszSrc with
  | .error rc => .error rc
  | .ok (cp, pszNext) =>
    if cp = 0 then .ok ([], cp, pszNext)
    else if cpQuote = 0 then
      if cp = chDouble.toNat ∨ cp = chSingle.toNat then copyArg pszSeparators cp pszNext
      else if rtGetOptIsCpInSet cp pszSeparators then .ok ([], cp, pszNext)
      else (copyArg pszSeparators cpQuote pszNext).map fun (pszDst, last) =>
        (rtStrPutCp cp ++ pszDst, last)
    else if cpQuote ≠ cp then
      (copyArg pszSeparators cpQuote pszNext).map fun (pszDst, last) =>
        (rtStrPutCp cp ++ pszDst, last)
    else copyArg pszSeparators 0 pszNext
  termination_by pszSrc.length
  decreasing_by all_goals exact rtStrGetCpEx_length ‹_› ‹_›

theorem map_eq_ok {α β : Type} {f : α → β} {x : Except Error α} {y : β}
    (mapped : x.map f = .ok y) : ∃ a, x = .ok a ∧ f a = y := by
  cases x with
  | error rc => cases mapped
  | ok a => exact ⟨a, rfl, Except.ok.inj mapped⟩

section Lengths

variable {pszSeparators : List UInt8}

theorem rtGetOptSkipDelimiters_length {pszSrc psz : List UInt8}
    (skipped : rtGetOptSkipDelimiters pszSeparators pszSrc = .ok psz) :
    psz.length ≤ pszSrc.length := by
  fun_induction rtGetOptSkipDelimiters pszSeparators pszSrc with
  | case1 => cases skipped
  | case2 => exact Nat.le_of_eq (by rw [Except.ok.inj skipped])
  | case3 pszSrc cp pszNext got goesOn ih =>
    exact (ih skipped).trans (rtStrGetCpEx_length got (by tauto)).le

/-- What is copied is a string of code points, and something is consumed before a separator. -/
theorem copyArg_ok {cpQuote cp : Nat} {pszSrc pszDst rest : List UInt8}
    (copied : copyArg pszSeparators cpQuote pszSrc = .ok (pszDst, cp, rest)) :
    IsUtf8 pszDst ∧ (cp ≠ 0 → rest.length < pszSrc.length) := by
  fun_induction copyArg pszSeparators cpQuote pszSrc generalizing pszDst with
  | case1 => cases copied
  | case2 cpQuote pszSrc pszNext got =>
    cases copied
    exact ⟨isUtf8_nil, fun more => absurd rfl more⟩
  | case3 pszSrc uc pszNext got char opens ih =>
    obtain ⟨valid, shorter⟩ := ih copied
    exact ⟨valid, fun more => (shorter more).trans (rtStrGetCpEx_length got char)⟩
  | case4 pszSrc uc pszNext got char plain separates =>
    cases copied
    exact ⟨isUtf8_nil, fun _ => rtStrGetCpEx_length got char⟩
  | case5 pszSrc uc pszNext got char plain copies ih =>
    obtain ⟨⟨dst, last⟩, tail, same⟩ := map_eq_ok copied
    cases same
    obtain ⟨valid, shorter⟩ := ih tail
    exact ⟨isUtf8_put (rtStrGetCpEx_ok got char).1 valid,
      fun more => (shorter more).trans (rtStrGetCpEx_length got char)⟩
  | case6 cpQuote pszSrc uc pszNext got char quoted other ih =>
    obtain ⟨⟨dst, last⟩, tail, same⟩ := map_eq_ok copied
    cases same
    obtain ⟨valid, shorter⟩ := ih tail
    exact ⟨isUtf8_put (rtStrGetCpEx_ok got char).1 valid,
      fun more => (shorter more).trans (rtStrGetCpEx_length got char)⟩
  | case7 cpQuote pszSrc uc pszNext got char quoted closes ih =>
    obtain ⟨valid, shorter⟩ := ih copied
    exact ⟨valid, fun more => (shorter more).trans (rtStrGetCpEx_length got char)⟩

end Lengths

/-- The loop of `RTGetOptArgvFromString` over the arguments. -/
def chop (pszSeparators pszSrc : List UInt8) : Except Error (List (List UInt8)) :=
  if pszSrc = [] then .ok []
  else
    match _ : rtGetOptSkipDelimiters pszSeparators pszSrc with
    | .error rc => .error rc
    | .ok psz =>
      if psz = [] then .ok []
      else
        match _ : copyArg pszSeparators 0 psz with
        | .error rc => .error rc
        | .ok (pszDst, cp, rest) =>
          if cp = 0 then .ok [pszDst] else (chop pszSeparators rest).map (pszDst :: ·)
  termination_by pszSrc.length
  decreasing_by
    exact ((copyArg_ok ‹_›).2 ‹_›).trans_le (rtGetOptSkipDelimiters_length ‹_›)

/-- `RTGetOptArgvFromString`. -/
def rtGetOptArgvFromString (pszCmdLine : List UInt8) (pszSeparators : Option (List UInt8)) :
    Except Status (List (List UInt8)) :=
  let pszSeparators := pszSeparators.getD defaultSeparators
  if pszSeparators.length = 0 then .error .invalidParameter
  else (chop pszSeparators pszCmdLine).mapError .string

end VBox.Runtime.GetOptArgv
