import CompiledModels.Json.Reader

/-!
Passing over a value that is not asked for. Only its form is checked: numbers may have any size,
escapes may stand for anything, and any number of lists and objects may be open.
-/

namespace CompiledModels.Json

def skipString : Nat → List Char → Except Failure (List Char)
  | 0, cs => .error (.at .endInString cs)
  | fuel + 1, cs =>
    match cs with
    | [] => .error (.at .endInString [])
    | '"' :: cs => .ok cs
    | '\\' :: cs =>
      match cs with
      | [] => .error (.at .endInString [])
      | 'u' :: cs => do
        let (_, cs) ← readHex4 cs
        skipString fuel cs
      | c :: cs =>
        if (simpleEscape? c).isSome then skipString fuel cs
        else .error (.next .invalidEscape (c :: cs))
    | c :: cs =>
      if c.toNat < 0x20 then .error (.at .controlCharacter (c :: cs)) else skipString fuel cs

def skipExponent (cs : List Char) : Except Failure (List Char) :=
  let cs := match cs with
    | '+' :: cs => cs
    | '-' :: cs => cs
    | cs => cs
  match cs with
  | [] => .error (.at .invalidNumber [])
  | c :: cs =>
    if c.isDigit then .ok (cs.dropWhile Char.isDigit)
    else .error (.next .invalidNumber (c :: cs))

def skipFraction (cs : List Char) : Except Failure (List Char) :=
  match cs with
  | c :: _ =>
    if !c.isDigit then .error (.next .invalidNumber cs)
    else match cs.dropWhile Char.isDigit with
      | 'e' :: cs => skipExponent cs
      | 'E' :: cs => skipExponent cs
      | cs => .ok cs
  | [] => .error (.next .invalidNumber [])

def skipNumberRest (cs : List Char) : Except Failure (List Char) :=
  match cs with
  | '.' :: cs => skipFraction cs
  | 'e' :: cs => skipExponent cs
  | 'E' :: cs => skipExponent cs
  | cs => .ok cs

def skipMagnitude (cs : List Char) : Except Failure (List Char) :=
  match cs with
  | [] => .error (.at .invalidNumber [])
  | '0' :: cs =>
    match cs with
    | c :: _ => if c.isDigit then .error (.next .invalidNumber cs) else skipNumberRest cs
    | [] => .ok []
  | c :: cs =>
    if c.isDigit then skipNumberRest (cs.dropWhile Char.isDigit)
    else .error (.next .invalidNumber (c :: cs))

inductive Frame
  | list
  | object

inductive Expect
  | value
  | inside (afterItem : Bool)

def skipKey (cs : List Char) : Except Failure (List Char) :=
  match skipSpace cs with
  | '"' :: cs => do
    let cs ← skipString (cs.length + 1) cs
    readColon cs
  | [] => .error (.next .endInObject [])
  | cs => .error (.next .keyNotString cs)

def skipItem : Frame → List Char → Except Failure (List Char)
  | .list, cs => .ok cs
  | .object, cs => skipKey cs

def skipOpen : Nat → List Frame → Expect → List Char → Except Failure (List Char)
  | 0, _, _, cs => .error (.next .endInValue cs)
  | fuel + 1, frames, .value, cs =>
    let scalar (rest : Except Failure (List Char)) : Except Failure (List Char) := do
      skipOpen fuel frames (.inside true) (← rest)
    match skipSpace cs with
    | [] => .error (.next .endInValue [])
    | 'n' :: cs => scalar (readWord ['u', 'l', 'l'] cs)
    | 't' :: cs => scalar (readWord ['r', 'u', 'e'] cs)
    | 'f' :: cs => scalar (readWord ['a', 'l', 's', 'e'] cs)
    | '-' :: cs => scalar (skipMagnitude cs)
    | '"' :: cs => scalar (skipString (cs.length + 1) cs)
    | '[' :: cs => skipOpen fuel (.list :: frames) (.inside false) cs
    | '{' :: cs => skipOpen fuel (.object :: frames) (.inside false) cs
    | c :: cs =>
      if c.isDigit then scalar (skipMagnitude (c :: cs))
      else .error (.next .expectedValue (c :: cs))
  | fuel + 1, frames, .inside afterItem, cs =>
    match frames with
    | [] => .ok cs
    | frame :: outer =>
      let item (cs : List Char) : Except Failure (List Char) := do
        skipOpen fuel frames .value (← skipItem frame cs)
      match frame, skipSpace cs with
      | .list, [] => .error (.next .endInList [])
      | .object, [] => .error (.next .endInObject [])
      | .list, ']' :: cs => skipOpen fuel outer (.inside true) cs
      | .object, '}' :: cs => skipOpen fuel outer (.inside true) cs
      | _, ',' :: cs =>
        if afterItem then item cs
        else item (',' :: cs)
      | .list, cs => if afterItem then .error (.next .expectedListEnd cs) else item cs
      | .object, cs => if afterItem then .error (.next .expectedObjectEnd cs) else item cs

def skipValue (cs : List Char) : Except Failure (List Char) :=
  skipOpen (2 * cs.length + 2) [] .value cs

end CompiledModels.Json
