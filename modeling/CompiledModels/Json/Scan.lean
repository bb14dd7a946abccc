import CompiledModels.Json.Failure
import CompiledModels.Json.Value
import CompiledModels.Text.Utf8

/-!
The tokens of data texts: white space, the words, strings with their escapes, and numbers. Each
reader takes the rest of the text and returns what it read with what is left.
-/

namespace CompiledModels.Json

def isSpace (c : Char) : Bool := c == ' ' || c == '\n' || c == '\t' || c == '\r'

def skipSpace (cs : List Char) : List Char := cs.dropWhile isSpace

def readWord (word : List Char) (cs : List Char) : Except Failure (List Char) :=
  match word, cs with
  | [], cs => .ok cs
  | _ :: _, [] => .error (.at .endInValue [])
  | w :: ws, c :: cs => if c = w then readWord ws cs else .error (.next .expectedWord (c :: cs))

def readHex4 (cs : List Char) : Except Failure (Nat × List Char) :=
  if byteCount cs < 4 then .error (.at .endInString [])
  else match Text.hexNumber? (cs.take 4) with
    | some n => .ok (n, cs.drop 4)
    | none => .error ⟨.invalidEscape, byteCount cs - 4⟩

def readUnits (cs : List Char) : Except Failure (Char × List Char) := do
  let (high, cs) ← readHex4 cs
  if 0xdc00 ≤ high ∧ high ≤ 0xdfff then throw (.at .loneSurrogate cs)
  else if high < 0xd800 ∨ 0xdbff < high then return (Char.ofNat high, cs)
  else match cs with
    | [] => throw (.at .endInString [])
    | '\\' :: cs =>
      match cs with
      | [] => throw (.at .endInString [])
      | 'u' :: cs =>
        let (low, cs) ← readHex4 cs
        if low < 0xdc00 ∨ 0xdfff < low then throw (.at .loneSurrogate cs)
        else return (Char.ofNat (0x10000 + (high - 0xd800) * 0x400 + (low - 0xdc00)), cs)
      | cs => throw (.next .endOfHexEscape cs)
    | cs => throw (.next .endOfHexEscape cs)

def simpleEscape? (c : Char) : Option Char :=
  match c with
  | '"' => some '"'
  | '\\' => some '\\'
  | '/' => some '/'
  | 'b' => some '\x08'
  | 'f' => some '\x0c'
  | 'n' => some '\n'
  | 'r' => some '\r'
  | 't' => some '\t'
  | _ => none

def readEscape : List Char → Except Failure (Char × List Char)
  | [] => .error (.at .endInString [])
  | 'u' :: cs => readUnits cs
  | c :: cs =>
    match simpleEscape? c with
    | some e => .ok (e, cs)
    | none => .error (.next .invalidEscape (c :: cs))

def readChars : Nat → List Char → Except Failure (List Char × List Char)
  | 0, cs => .error (.at .endInString cs)
  | fuel + 1, cs =>
    match cs with
    | [] => .error (.at .endInString [])
    | '"' :: cs => .ok ([], cs)
    | '\\' :: cs => do
      let (c, cs) ← readEscape cs
      let (s, cs) ← readChars fuel cs
      return (c :: s, cs)
    | c :: cs =>
      if c.toNat < 0x20 then .error (.at .controlCharacter cs)
      else do
        let (s, cs) ← readChars fuel cs
        return (c :: s, cs)

def readString (cs : List Char) : Except Failure (String × List Char) := do
  let (s, cs) ← readChars (cs.length + 1) cs
  return (String.ofList s, cs)

/-- Digits that still fit a word when they are added to `sig`, the count of those that were read
and whether a further digit would not fit. -/
def takeDigits : Nat → List Char → Nat × Nat × Bool × List Char
  | sig, [] => (sig, 0, false, [])
  | sig, c :: cs =>
    if c.isDigit then
      let next := sig * 10 + (c.toNat - 0x30)
      if next < 2 ^ 64 then
        let (sig, count, full, rest) := takeDigits next cs
        (sig, count + 1, full, rest)
      else (sig, 0, true, c :: cs)
    else (sig, 0, false, c :: cs)

def powerOfTen (n : Nat) : Float := Float.ofScientific 1 false n

/-- Scales `f` by powers of ten in steps of at most 308; each step rounds. Three steps down from
the largest significand give zero. -/
def scale : Nat → Float → Int → Option Float
  | 0, f, _ => some f
  | fuel + 1, f, e =>
    if e.natAbs ≤ 308 then
      if 0 ≤ e then
        let g := f * powerOfTen e.natAbs
        if g.isInf then none else some g
      else some (f / powerOfTen e.natAbs)
    else if f == 0.0 then some f
    else if 0 ≤ e then none
    else scale fuel (f / powerOfTen 308) (e + 308)

def floatOfParts (negative : Bool) (sig : Nat) (e : Int) (rest : List Char) :
    Except Failure (Number × List Char) :=
  match scale 4 (Float.ofScientific sig false 0) e with
  | some f =>
    let x := Binary64.ofFloat f
    .ok (.float (if negative then x.negate else x), rest)
  | none => .error (.at .numberOutOfRange rest)

def takeExponent : Nat → List Char → Option Nat × List Char
  | e, [] => (some e, [])
  | e, c :: cs =>
    if c.isDigit then
      let next := e * 10 + (c.toNat - 0x30)
      if next < 2 ^ 31 then takeExponent next cs else (none, cs)
    else (some e, c :: cs)

def readExponent (negative : Bool) (sig : Nat) (e : Int) (cs : List Char) :
    Except Failure (Number × List Char) :=
  let (down, cs) := match cs with
    | '+' :: cs => (false, cs)
    | '-' :: cs => (true, cs)
    | cs => (false, cs)
  match cs with
  | [] => .error (.at .endInValue [])
  | c :: cs =>
    if !c.isDigit then .error (.next .invalidNumber (c :: cs))
    else match takeExponent (c.toNat - 0x30) cs with
      | (some n, cs) => floatOfParts negative sig (if down then e - n else e + n) cs
      | (none, cs) =>
        if sig ≠ 0 ∧ !down then .error (.at .numberOutOfRange cs)
        else
          let zero := Binary64.zero
          .ok (.float (if negative then zero.negate else zero), cs.dropWhile Char.isDigit)

def readFraction (negative : Bool) (sig : Nat) (e : Int) (cs : List Char) :
    Except Failure (Number × List Char) :=
  let (sig, count, full, cs) := takeDigits sig cs
  if count = 0 ∧ !full then
    .error (.next (if cs.isEmpty then .endInValue else .invalidNumber) cs)
  else
    let e := e - count
    match cs.dropWhile Char.isDigit with
    | c :: cs =>
      if c = 'e' ∨ c = 'E' then readExponent negative sig e cs
      else floatOfParts negative sig e (c :: cs)
    | [] => floatOfParts negative sig e []

def wholeNumber (negative : Bool) (sig : Nat) : Number :=
  if !negative then .natural (UInt64.ofNat sig)
  else if h : 0 < sig ∧ sig ≤ 2 ^ 63 then .negative ⟨sig - 1, by omega⟩
  else .float (Binary64.ofFloat (Float.ofScientific sig false 0)).negate

def readRest (negative : Bool) (sig : Nat) (extra : Option Nat) (cs : List Char) :
    Except Failure (Number × List Char) :=
  let e : Int := extra.getD 0
  match cs with
  | '.' :: cs => readFraction negative sig e cs
  | 'e' :: cs => readExponent negative sig e cs
  | 'E' :: cs => readExponent negative sig e cs
  | cs =>
    match extra with
    | none => .ok (wholeNumber negative sig, cs)
    | some _ => floatOfParts negative sig e cs

def readMagnitude (negative : Bool) (cs : List Char) : Except Failure (Number × List Char) :=
  match cs with
  | [] => .error (.at .endInValue [])
  | '0' :: cs =>
    match cs with
    | c :: _ =>
      if c.isDigit then .error (.next .invalidNumber cs) else readRest negative 0 none cs
    | [] => readRest negative 0 none []
  | c :: cs =>
    if !c.isDigit then .error (.next .invalidNumber (c :: cs))
    else
      let (sig, _, full, cs) := takeDigits (c.toNat - 0x30) cs
      if full then
        readRest negative sig (some (cs.takeWhile Char.isDigit).length) (cs.dropWhile Char.isDigit)
      else readRest negative sig none cs

def readNumber (cs : List Char) : Except Failure (Number × List Char) :=
  match cs with
  | '-' :: cs => readMagnitude true cs
  | cs => readMagnitude false cs

end CompiledModels.Json
