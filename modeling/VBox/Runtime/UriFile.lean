import VBox.Runtime.StrVersion
import VBox.Runtime.Uri

/-!
File URIs.

The path of a file is escaped and put behind `file://`. The way back splits a URI at its
delimiters, decodes the path and changes the slashes.
-/

namespace VBox.Runtime.Uri

open VBox.Lib.PercentCode List
open VBox.Runtime.StrToNum (charAt)
open VBox.Runtime.StrVersion (rtStrNICmp)

def chSlash : UInt8 := 0x2f
def chBackslash : UInt8 := 0x5c
def chColon : UInt8 := 0x3a
def chQuestion : UInt8 := 0x3f
def chHash : UInt8 := 0x23

/-- `file:` -/
def schemeFile : List UInt8 := [0x66, 0x69, 0x6c, 0x65, 0x3a]

/-! ### Encoding -/

/-- `URI_EXCLUDED`. -/
def uriExcluded (a : UInt8) : Bool :=
  a ≤ 0x20 || (0x5b ≤ a && a ≤ 0x5e) || (0x7b ≤ a && a ≤ 0x7d) || a == 0x3c || a == 0x3e ||
    a == chHash || a == percent || a == 0x22 || a == 0x60

/-- `rtUriPercentEncodeN`. -/
def rtUriPercentEncodeN (pszString : List UInt8) (cchMax : Option Nat) : List UInt8 :=
  encode uriExcluded (limited pszString cchMax)

/-- `RTUriFileCreate`. -/
def rtUriFileCreate (pszPath : List UInt8) : List UInt8 :=
  let pszPath1 := rtUriPercentEncodeN pszPath none
  schemeFile ++ [chSlash, chSlash] ++
    (if charAt pszPath1 0 ≠ chSlash then [chSlash] else []) ++ pszPath1

/-! ### Delimiters -/

/-- The index of the first character, from `i` on, at which a part of a URI ends. -/
def findEnd (ends : UInt8 → Bool) (pszUri : List UInt8) : Nat → Nat → Option Nat
  | 0, _ => none
  | cbLen + 1, i => if ends (charAt pszUri i) then some i else findEnd ends pszUri cbLen (i + 1)

def endsAuthority (ch : UInt8) : Bool := ch == chSlash || ch == chQuestion || ch == chHash

def endsPath (ch : UInt8) : Bool := ch == chQuestion || ch == chHash

/-- `rtUriFindSchemeEnd`. -/
def rtUriFindSchemeEnd (pszUri : List UInt8) (iStart cbLen : Nat) : Option Nat :=
  findEnd (· == chColon) pszUri cbLen iStart

/-- `rtUriCheckAuthorityStart`. -/
def rtUriCheckAuthorityStart (pszUri : List UInt8) (iStart cbLen : Nat) : Option Nat :=
  if 2 ≤ cbLen ∧ charAt pszUri iStart = chSlash ∧ charAt pszUri (iStart + 1) = chSlash then
    some (iStart + 2)
  else none

/-- `rtUriFindAuthorityEnd`. -/
def rtUriFindAuthorityEnd (pszUri : List UInt8) (iStart cbLen : Nat) : Option Nat :=
  findEnd endsAuthority pszUri cbLen iStart

/-- `rtUriCheckPathStart`. -/
def rtUriCheckPathStart (pszUri : List UInt8) (iStart cbLen : Nat) : Option Nat :=
  if 1 ≤ cbLen ∧ charAt pszUri iStart = chSlash then some iStart
  else if 1 ≤ cbLen ∧ (charAt pszUri iStart = chQuestion ∨ charAt pszUri iStart = chHash) then none
  else some iStart

/-- `rtUriFindPathEnd`. -/
def rtUriFindPathEnd (pszUri : List UInt8) (iStart cbLen : Nat) : Option Nat :=
  findEnd endsPath pszUri cbLen iStart

/-! ### The path of a file -/

def uriFileFormatAuto : UInt32 := 0
def uriFileFormatUnix : UInt32 := 1
def uriFileFormatWin : UInt32 := 2

/-- What the caller gets: no path, a path, or nothing, when the slashes of a null pointer are to
be changed. -/
inductive FilePath where
  | null
  | path (psz : List UInt8)
  | fault
  deriving DecidableEq

/-- `RTPathChangeToUnixSlashes` and `RTPathChangeToDosSlashes`, when forced: one kind of slash is
changed into the other. -/
def changeSlashes (old new : UInt8) : Option (List UInt8) → FilePath
  | none => .fault
  | some pszPath => .path (pszPath.map fun ch => if ch = old then new else ch)

/-- `RTPathChangeToUnixSlashes`. -/
def rtPathChangeToUnixSlashes : Option (List UInt8) → FilePath := changeSlashes chBackslash chSlash

/-- `RTPathChangeToDosSlashes`. -/
def rtPathChangeToDosSlashes : Option (List UInt8) → FilePath := changeSlashes chSlash chBackslash

section FilePath

variable (pszUri : List UInt8) (behind : Nat → UInt8)

/-- The path from an index on; `RT_OS_WINDOWS` is not defined. -/
def filePathFrom (uFormat : UInt32) (cbLen iPos4 : Nat) : FilePath :=
  let uFIntern := if uFormat = uriFileFormatAuto then uriFileFormatUnix else uFormat
  let iPos4 :=
    if uFIntern ≠ uriFileFormatUnix ∧ charAt pszUri iPos4 = chSlash then iPos4 + 1 else iPos4
  let iPos5 := (rtUriFindPathEnd pszUri iPos4 (cbLen - iPos4)).getD cbLen
  if iPos5 > iPos4 then
    let pszPath := (rtUriPercentDecodeN (pszUri.drop iPos4) behind (some (iPos5 - iPos4))).pszNew
    if uFIntern = uriFileFormatUnix then rtPathChangeToUnixSlashes pszPath
    else if uFIntern = uriFileFormatWin then rtPathChangeToDosSlashes pszPath
    else .null
  else .null

/-- The index behind the authority, if there is one. -/
def skipAuthority (cbLen iPos1 : Nat) : Option Nat :=
  match rtUriCheckAuthorityStart pszUri iPos1 (cbLen - iPos1) with
  | some iPos2 => rtUriFindAuthorityEnd pszUri iPos2 (cbLen - iPos2)
  | none => some iPos1

/-- `RTUriFileNPath`. -/
def rtUriFileNPath (lower : UInt8 → Nat) (uFormat : UInt32) (cchMax : Option Nat) : FilePath :=
  let cbLen := (limited pszUri cchMax).length
  match rtUriFindSchemeEnd pszUri 0 cbLen with
  | none => .null
  | some iPos1 =>
    if rtStrNICmp lower (iPos1 + 1) pszUri schemeFile ≠ 0 then .null
    else
      match skipAuthority pszUri cbLen (iPos1 + 1) with
      | none => .null
      | some iPos3 =>
        match rtUriCheckPathStart pszUri iPos3 (cbLen - iPos3) with
        | none => .null
        | some iPos4 => filePathFrom pszUri behind uFormat cbLen iPos4

/-- `RTUriFilePath`. -/
def rtUriFilePath (lower : UInt8 → Nat) (uFormat : UInt32) : FilePath :=
  rtUriFileNPath pszUri behind lower uFormat none

end FilePath

/-! ### Searches -/

/-- A search finds the end of the characters that end nothing. -/
theorem findEnd_eq (ends : UInt8 → Bool) (pre text : List UInt8) :
    (findEnd ends (pre ++ text) text.length pre.length).getD (pre ++ text).length =
      pre.length + (text.takeWhile fun ch => !ends ch).length := by
  induction text generalizing pre with
  | nil => simp [findEnd]
  | cons ch text ih =>
    have head : charAt (pre ++ ch :: text) pre.length = ch := by simp [charAt]
    have rest := ih (pre ++ [ch])
    simp only [append_assoc, cons_append, nil_append, length_append, length_singleton] at rest
    simp only [length_cons, findEnd, head]
    by_cases stop : ends ch
    · simp [stop]
    · rw [if_neg stop, takeWhile_cons_of_pos (by simpa using stop)]
      simp only [length_append, length_cons] at rest ⊢
      omega

/-! ### Created URIs -/

theorem not_endsPath {ch : UInt8} (question : ch ≠ chQuestion) (hash : ch ≠ chHash) :
    (!endsPath ch) = true := by
  simp [endsPath, question, hash]

/-- Nothing that ends a path is left in an encoded text but the question marks. -/
theorem endsPath_encode (text : List UInt8) :
    (encode uriExcluded text).takeWhile (fun ch => !endsPath ch) =
      encode uriExcluded (text.takeWhile (· ≠ chQuestion)) := by
  induction text with
  | nil => rfl
  | cons ch text ih =>
    have escape : ∀ c ∈ escapeOf ch, (!endsPath c) = true := by
      intro c mem
      obtain rfl | digit | capital := mem_escapeOf mem
      · decide
      · exact not_endsPath (fun h => absurd (h ▸ digit.2) (by decide))
          (fun h => absurd (h ▸ digit.1) (by decide))
      · exact not_endsPath (fun h => absurd (h ▸ capital.1) (by decide))
          (fun h => absurd (h ▸ capital.1) (by decide))
    by_cases mark : ch = chQuestion
    · subst mark
      rfl
    · rw [takeWhile_cons_of_pos (by simpa using mark), encode_cons, encode_cons, ← ih]
      by_cases excluded : uriExcluded ch
      · rw [if_pos excluded, takeWhile_append_of_pos escape]
      · have goesOn : (!endsPath ch) = true :=
          not_endsPath mark fun hash => excluded (hash ▸ by decide)
        rw [if_neg excluded, cons_append, nil_append, takeWhile_cons, if_pos goesOn]
        rfl

/-- On Unix, the path is what is decoded up to its end, with slashes only. -/
theorem filePathFrom_unix (pszUri : List UInt8) (behind : Nat → UInt8) (cbLen iPos4 : Nat) :
    filePathFrom pszUri behind uriFileFormatUnix cbLen iPos4 =
      if (rtUriFindPathEnd pszUri iPos4 (cbLen - iPos4)).getD cbLen > iPos4 then
        rtPathChangeToUnixSlashes (rtUriPercentDecodeN (pszUri.drop iPos4) behind
          (some ((rtUriFindPathEnd pszUri iPos4 (cbLen - iPos4)).getD cbLen - iPos4))).pszNew
      else .null := by
  have unix : (if uriFileFormatUnix = uriFileFormatAuto then uriFileFormatUnix
      else uriFileFormatUnix) = uriFileFormatUnix := ite_self _
  simp only [filePathFrom, unix, ne_eq, not_true, false_and, if_false, if_true]

/-- An encoded path is read up to its first question mark. -/
theorem filePathFrom_encode (behind : Nat → UInt8) (front : List UInt8) {path : List UInt8}
    (absolute : path.head? = some chSlash) (whole : 0 ∉ path) :
    filePathFrom (front ++ encode uriExcluded path) behind uriFileFormatUnix
        (front ++ encode uriExcluded path).length front.length =
      rtPathChangeToUnixSlashes (some (path.takeWhile (· ≠ chQuestion))) := by
  have pathEnd := findEnd_eq endsPath front (encode uriExcluded path)
  have before : (encode uriExcluded path).take
      (encode uriExcluded (path.takeWhile (· ≠ chQuestion))).length =
      encode uriExcluded (path.takeWhile (· ≠ chQuestion)) := by
    rw [← endsPath_encode]
    exact (prefix_iff_eq_take.mp ( takeWhile_prefix _)).symm
  have nonempty : 0 < (encode uriExcluded (path.takeWhile (· ≠ chQuestion))).length := by
    obtain ⟨rest, rfl⟩ : ∃ rest, path = chSlash :: rest := ⟨_, eq_cons_of_mem_head? absolute⟩
    exact Nat.succ_pos _
  rw [endsPath_encode] at pathEnd
  rw [filePathFrom_unix, rtUriFindPathEnd, length_append, Nat.add_sub_cancel_left,
    ← length_append, pathEnd, if_pos (Nat.lt_add_of_pos_right nonempty),
    Nat.add_sub_cancel_left, drop_left]
  have decoded : decode (limited (encode uriExcluded path)
      (some (encode uriExcluded (path.takeWhile (· ≠ chQuestion))).length)) =
      some (path.takeWhile (· ≠ chQuestion)) := by
    rw [limited, before, decode_encode (by decide)]
  rw [rtUriPercentDecodeN_of_decode behind decoded
    fun mem => whole (( takeWhile_prefix _).subset mem)]

/-- The URI of an absolute path leads back to what is before its first question mark, with
slashes only. -/
theorem filePath_create (lower : UInt8 → Nat) (behind : Nat → UInt8) {path : List UInt8}
    (absolute : path.head? = some chSlash) (whole : 0 ∉ path) :
    rtUriFilePath (rtUriFileCreate path) behind lower uriFileFormatUnix =
      rtPathChangeToUnixSlashes (some (path.takeWhile (· ≠ chQuestion))) := by
  obtain ⟨rest, rfl⟩ : ∃ rest, path = chSlash :: rest := ⟨_, eq_cons_of_mem_head? absolute⟩
  have enc : encode uriExcluded (chSlash :: rest) = chSlash :: encode uriExcluded rest := rfl
  have uri : rtUriFileCreate (chSlash :: rest) =
      schemeFile ++ [chSlash, chSlash] ++ encode uriExcluded (chSlash :: rest) := by
    simp [rtUriFileCreate, rtUriPercentEncodeN, limited, enc, charAt]
  have read := filePathFrom_encode behind (schemeFile ++ [chSlash, chSlash]) absolute whole
  rw [uri, ← read, rtUriFilePath, rtUriFileNPath, limited]
  set pszUri := schemeFile ++ [chSlash, chSlash] ++ encode uriExcluded (chSlash :: rest) with hUri
  have cb : pszUri.length = (encode uriExcluded rest).length + 8 := by
    simp [hUri, enc, schemeFile]
  have scheme : rtUriFindSchemeEnd pszUri 0 pszUri.length = some 4 := by
    rw [cb]
    rfl
  have folded : rtStrNICmp lower 5 pszUri schemeFile = 0 := by
    simp [hUri, schemeFile, rtStrNICmp]
  have authority : skipAuthority pszUri pszUri.length 5 = some 7 := by
    have found : rtUriCheckAuthorityStart pszUri 5 (pszUri.length - 5) = some 7 := by
      rw [cb]
      rfl
    rw [skipAuthority, found, cb]
    rfl
  have start : rtUriCheckPathStart pszUri 7 (pszUri.length - 7) = some 7 := by
    rw [cb]
    rfl
  simp only [scheme, folded, authority, start]
  rfl

theorem takeWhile_question {path : List UInt8} (question : chQuestion ∉ path) :
    path.takeWhile (· ≠ chQuestion) = path :=
  takeWhile_eq_self_iff.mpr fun _ mem => decide_eq_true fun h => question (h ▸ mem)

/-- The URI of an absolute path without question marks leads back to the path, with a slash for
each backslash in it. -/
theorem filePath_create_slashes (lower : UInt8 → Nat) (behind : Nat → UInt8) {path : List UInt8}
    (absolute : path.head? = some chSlash) (whole : 0 ∉ path) (question : chQuestion ∉ path) :
    rtUriFilePath (rtUriFileCreate path) behind lower uriFileFormatUnix =
      .path (path.map fun ch => if ch = chBackslash then chSlash else ch) := by
  rw [filePath_create lower behind absolute whole, takeWhile_question question]
  rfl

theorem filePath_create_slashes_percent :
    rtUriFilePath (rtUriFileCreate [chSlash, percent]) (fun _ => 0) UInt8.toNat uriFileFormatUnix =
      .path ([chSlash, percent].map fun ch => if ch = chBackslash then chSlash else ch) :=
  filePath_create_slashes UInt8.toNat (fun _ => 0) rfl (by decide) (by decide)

/-- The path of a slash and a backslash leads back to that of two slashes. -/
theorem filePath_create_backslash :
    rtUriFilePath (rtUriFileCreate [chSlash, chBackslash]) (fun _ => 0) UInt8.toNat
      uriFileFormatUnix ≠ .path [chSlash, chBackslash] := by
  decide

end VBox.Runtime.Uri
