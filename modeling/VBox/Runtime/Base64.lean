import Mathlib.Algebra.Group.Nat.Defs
import Mathlib.Data.List.Basic
import Mathlib.Tactic.Common

/-!
Base64.

A terminated string is the list of its characters. A `char` is signed, so that as an index the
characters beyond the plain ones are far outside the table of values; reading there is a fault.
-/

namespace VBox.Runtime.Base64

inductive Failure where
  | fault
  | bufferOverflow
  | invalidEncoding
  deriving DecidableEq

/-! ### Tables -/

def base64Space : UInt8 := 0xc0
def base64Pad : UInt8 := 0xe0
def base64Invalid : UInt8 := 0xff

/-- The length of a line. -/
def lineLen : UInt64 := 64

/-- An entry of `g_au8CharToVal`. -/
def entry (ch : UInt8) : UInt8 :=
  if 0x41 ≤ ch ∧ ch ≤ 0x5a then ch - 0x41
  else if 0x61 ≤ ch ∧ ch ≤ 0x7a then ch - 0x47
  else if 0x30 ≤ ch ∧ ch ≤ 0x39 then ch + 4
  else if ch = 0x2b then 62
  else if ch = 0x2f then 63
  else if (0x09 ≤ ch ∧ ch ≤ 0x0d) ∨ ch = 0x20 then base64Space
  else if ch = 0x3d then base64Pad
  else base64Invalid

/-- An entry of `g_szValToChar`. -/
def valToChar (val : UInt8) : UInt8 :=
  if val < 26 then val + 0x41
  else if val < 52 then val + 0x47
  else if val < 62 then val - 4
  else if val = 62 then 0x2b
  else 0x2f

/-- A character as an index: a signed number converted to an unsigned one. -/
def index (ch : UInt8) : Nat := if ch < 0x80 then ch.toNat else 2 ^ 32 - 256 + ch.toNat

/-- The value of a character, if it is in the table. -/
def charToVal (ch : UInt8) : Except Failure UInt8 :=
  if index ch < 256 then .ok (entry ch) else .error .fault

/-! ### Padding -/

/-- The loop behind the first padding character: how many there are, the last value and the rest
of the string. -/
def padLoop : UInt32 → UInt8 → List UInt8 → Except Failure (UInt32 × UInt8 × List UInt8)
  | cbPad, u8, [] => .ok (cbPad, u8, [])
  | cbPad, _, ch :: psz => do
    let u8 ← charToVal ch
    if u8 ≠ base64Space then
      if u8 ≠ base64Pad then .ok (cbPad, u8, ch :: psz) else padLoop (cbPad + 1) u8 psz
    else padLoop cbPad u8 psz

/-- The checks of the padding and of what follows it. -/
def checkPads (fEnd : Bool) :
    UInt32 × UInt8 × List UInt8 → Except Failure (UInt32 × List UInt8)
  | (cbPad, u8, psz) =>
    if cbPad ≥ 3 then .error .invalidEncoding
    else if u8 = base64Invalid ∧ !fEnd ∧ psz ≠ [] then .error .invalidEncoding
    else .ok (cbPad, psz)

/-- The padding behind the sextets. -/
def readPads (fEnd : Bool) (u8 : UInt8) (psz : List UInt8) :
    Except Failure (UInt32 × List UInt8) :=
  (if u8 = base64Pad then padLoop 1 u8 psz.tail else .ok (0, u8, psz)) >>= checkPads fEnd

/-! ### The size -/

/-- The first loop of `RTBase64DecodedSize`. -/
def sizeLoop : UInt32 → UInt8 → List UInt8 → Except Failure (UInt32 × UInt8 × List UInt8)
  | c6Bits, u8, [] => .ok (c6Bits, u8, [])
  | c6Bits, _, ch :: psz => do
    let u8 ← charToVal ch
    if u8 < 64 then sizeLoop (c6Bits + 1) u8 psz
    else if u8 ≠ base64Space then .ok (c6Bits, u8, ch :: psz)
    else sizeLoop c6Bits u8 psz

/-- The bytes in so many sextets, in 32 bits if these are enough for the product. -/
def bytes (c6Bits : UInt32) : Except Failure Nat :=
  if c6Bits * 3 / 3 = c6Bits then
    if c6Bits * 3 % 4 ≠ 0 then .error .invalidEncoding else .ok (c6Bits * 3 / 4).toNat
  else if c6Bits.toNat * 3 % 4 ≠ 0 then .error .invalidEncoding
  else .ok (c6Bits.toNat * 3 / 4)

/-- `RTBase64DecodedSize`: the size and the rest of the string. The flag tells whether the caller
asks for the rest. -/
def rtBase64DecodedSize (pszString : List UInt8) (fEnd : Bool) :
    Except Failure (Nat × List UInt8) := do
  let (c6Bits, u8, psz) ← sizeLoop 0 base64Invalid pszString
  let (cbPad, psz) ← readPads fEnd u8 psz
  -- The padding characters have been counted as sextets, too.
  let cb ← bytes (c6Bits + cbPad)
  if cb < cbPad.toNat then .error .invalidEncoding else .ok (cb - cbPad.toNat, psz)

/-! ### Decoding -/

/-- `u8Trio` -/
structure Trio where
  b0 : UInt8
  b1 : UInt8
  b2 : UInt8

/-- Where the decoder is when it comes upon what is no sextet. -/
structure Stop where
  c6Bits : Nat
  u8Trio : Trio
  cbData : Nat
  u8 : UInt8
  psz : List UInt8

/-- The loop of `RTBase64Decode`, with so many sextets pending: the bytes stored and where it
stops. -/
def decodeLoop : Nat → Trio → Nat → List UInt8 → Except Failure (List UInt8 × Stop)
  | c6Bits, u8Trio, cbData, [] => .ok ([], ⟨c6Bits, u8Trio, cbData, entry 0, []⟩)
  | c6Bits, u8Trio, cbData, ch :: psz => do
    let u8 ← charToVal ch
    if u8 = base64Space then decodeLoop c6Bits u8Trio cbData psz
    else if u8 ≥ 64 then .ok ([], ⟨c6Bits, u8Trio, cbData, u8, ch :: psz⟩)
    else
      match c6Bits with
      | 0 => decodeLoop 1 { u8Trio with b0 := u8 <<< 2 } cbData psz
      | 1 => decodeLoop 2 { u8Trio with b0 := u8Trio.b0 ||| u8 >>> 4, b1 := u8 <<< 4 } cbData psz
      | 2 => decodeLoop 3 { u8Trio with b1 := u8Trio.b1 ||| u8 >>> 2, b2 := u8 <<< 6 } cbData psz
      | _ =>
        let u8Trio := { u8Trio with b2 := u8Trio.b2 ||| u8 }
        if cbData < 3 then .error .bufferOverflow
        else do
          let (data, stop) ← decodeLoop 0 u8Trio (cbData - 3) psz
          .ok (u8Trio.b0 :: u8Trio.b1 :: u8Trio.b2 :: data, stop)

/-- What is left to do with pending sextets: the last bytes. -/
def finishTrio (c6Bits : Nat) (u8Trio : Trio) (cbData : Nat) (cbPad : UInt32) :
    Except Failure (List UInt8) :=
  if c6Bits ≠ 0 ∨ cbPad ≠ 0 then
    if UInt32.ofNat c6Bits + cbPad ≠ 4 then .error .invalidEncoding
    else
      let u8Trio : Trio :=
        match c6Bits with
        | 1 => { u8Trio with b1 := 0, b2 := 0 }
        | 2 => { u8Trio with b2 := 0 }
        | _ => u8Trio
      match (3 - cbPad).toNat with
      | 1 => if cbData < 1 then .error .bufferOverflow else .ok [u8Trio.b0]
      | 2 => if cbData < 2 then .error .bufferOverflow else .ok [u8Trio.b0, u8Trio.b1]
      | _ => .ok []
  else .ok []

/-- Behind the loop of `RTBase64Decode`: the last bytes and the rest of the string. -/
def finish (fEnd : Bool) (stop : Stop) : Except Failure (List UInt8 × List UInt8) := do
  let (cbPad, psz) ← readPads fEnd stop.u8 stop.psz
  let data ← finishTrio stop.c6Bits stop.u8Trio stop.cbData cbPad
  .ok (data, psz)

/-- The rest of `RTBase64Decode`, with so many sextets pending. -/
def decodeFrom (fEnd : Bool) (c6Bits : Nat) (u8Trio : Trio) (cbData : Nat) (psz : List UInt8) :
    Except Failure (List UInt8 × List UInt8) := do
  let (data, stop) ← decodeLoop c6Bits u8Trio cbData psz
  let (last, psz) ← finish fEnd stop
  .ok (data ++ last, psz)

/-- `RTBase64Decode`: the data and the rest of the string. -/
def rtBase64Decode (pszString : List UInt8) (cbData : Nat) (fEnd : Bool) :
    Except Failure (List UInt8 × List UInt8) :=
  decodeFrom fEnd 0 ⟨0, 0, 0⟩ cbData pszString

/-! ### Encoding -/

/-- The end of a line: a newline, with a carriage return in front of it on some systems. -/
def eol (fCrLf : Bool) : List UInt8 := if fCrLf then [0x0d, 0x0a] else [0x0a]

/-- `RTBASE64_EOL_SIZE` -/
def eolSize (fCrLf : Bool) : UInt64 := if fCrLf then 2 else 1

/-- The loop that rounds a number of bits up; it does not take more than two rounds. -/
def roundUp : Nat → UInt64 → UInt64
  | 0, cch => cch
  | rounds + 1, cch => if cch % 24 = 0 then cch else roundUp rounds (cch + 8)

/-- `RTBase64EncodedLength`; its two branches do not differ with 64 bits. -/
def rtBase64EncodedLength (fCrLf : Bool) (cbData : UInt64) : UInt64 :=
  let cch := roundUp 2 (cbData * 8) / 6
  cch + (cch - 1) / lineLen * eolSize fCrLf

def chPad : UInt8 := 0x3d

/-- A sextet from the low bits of one byte and the high bits of the next. -/
def joined (high low : UInt8) : UInt8 := (high &&& (0x3f : UInt8)) ||| low

/-- The characters of a trio. -/
def encodeTrio (u8A u8B u8C : UInt8) : List UInt8 :=
  [valToChar (u8A >>> 2), valToChar (joined (u8A <<< 4) (u8B >>> 4)),
    valToChar (joined (u8B <<< 2) (u8C >>> 6)), valToChar (u8C &&& 0x3f)]

/-- The loop of `RTBase64Encode` and the odd bytes behind it. -/
def encodeLoop (fCrLf : Bool) : UInt64 → UInt64 → List UInt8 → Except Failure (List UInt8)
  | cbBuf, cbLineFeed, u8A :: u8B :: u8C :: pbSrc =>
    if cbBuf < 4 + 1 then .error .bufferOverflow
    else
      let cbBuf := cbBuf - 4
      if cbBuf = cbLineFeed ∧ pbSrc ≠ [] then
        if cbBuf < eolSize fCrLf + 1 then .error .bufferOverflow
        else
          let cbBuf := cbBuf - eolSize fCrLf
          (encodeLoop fCrLf cbBuf (cbBuf - lineLen) pbSrc).map
            (encodeTrio u8A u8B u8C ++ eol fCrLf ++ ·)
      else (encodeLoop fCrLf cbBuf cbLineFeed pbSrc).map (encodeTrio u8A u8B u8C ++ ·)
  | cbBuf, _, [u8A, u8B] =>
    if cbBuf < 4 + 1 then .error .bufferOverflow
    else
      .ok [valToChar (u8A >>> 2), valToChar (joined (u8A <<< 4) (u8B >>> 4)),
        valToChar ((u8B <<< 2) &&& 0x3f), chPad]
  | cbBuf, _, [u8A] =>
    if cbBuf < 4 + 1 then .error .bufferOverflow
    else .ok [valToChar (u8A >>> 2), valToChar ((u8A <<< 4) &&& 0x3f), chPad, chPad]
  | _, _, [] => .ok []

/-- `RTBase64Encode`: the string, without its terminator. -/
def rtBase64Encode (fCrLf : Bool) (pvData : List UInt8) (cbBuf : UInt64) :
    Except Failure (List UInt8) :=
  encodeLoop fCrLf cbBuf (cbBuf - lineLen) pvData

/-! ### The parts of a string -/

def IsSextet (ch : UInt8) : Prop := entry ch < 64

instance (ch : UInt8) : Decidable (IsSextet ch) := inferInstanceAs (Decidable (entry ch < 64))

def IsSpace (ch : UInt8) : Prop := entry ch = base64Space

instance (ch : UInt8) : Decidable (IsSpace ch) :=
  inferInstanceAs (Decidable (entry ch = base64Space))

def IsPad (ch : UInt8) : Prop := entry ch = base64Pad

instance (ch : UInt8) : Decidable (IsPad ch) := inferInstanceAs (Decidable (entry ch = base64Pad))

/-- How many sextets there are up to what is neither a sextet nor white space. -/
def sextets (psz : List UInt8) : Nat :=
  (psz.takeWhile fun ch => IsSextet ch ∨ IsSpace ch).countP fun ch => IsSextet ch

/-- What follows the sextets. -/
def textEnd (psz : List UInt8) : List UInt8 := psz.dropWhile fun ch => IsSextet ch ∨ IsSpace ch

/-- How many padding characters there are behind the sextets. -/
def pads (psz : List UInt8) : Nat :=
  ((textEnd psz).takeWhile fun ch => IsPad ch ∨ IsSpace ch).countP fun ch => IsPad ch

/-- What follows the padding. -/
def behind (psz : List UInt8) : List UInt8 :=
  (textEnd psz).dropWhile fun ch => IsPad ch ∨ IsSpace ch

end VBox.Runtime.Base64
