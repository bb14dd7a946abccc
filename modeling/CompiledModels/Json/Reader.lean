import CompiledModels.Json.Scan

/-!
Reading a data text as a value. At most 127 lists and objects may be open at once.
-/

namespace CompiledModels.Json

def readItems {α : Type} (item : List Char → Except Failure (α × List Char)) :
    Nat → Bool → List Char → Except Failure (List α × List Char)
  | 0, _, cs => .error (.next .endInList cs)
  | fuel + 1, first, cs =>
    let oneMore (cs : List Char) : Except Failure (List α × List Char) := do
      let (v, cs) ← item cs
      let (vs, cs) ← readItems item fuel false cs
      return (v :: vs, cs)
    match skipSpace cs with
    | [] => .error (.next .endInList [])
    | ']' :: cs => .ok ([], cs)
    | ',' :: cs =>
      if first then oneMore (',' :: cs)
      else match skipSpace cs with
        | [] => .error (.next .endInValue [])
        | ']' :: cs => .error (.next .trailingComma (']' :: cs))
        | cs => oneMore cs
    | cs => if first then oneMore cs else .error (.next .expectedListEnd cs)

def readKey (first : Bool) (cs : List Char) : Except Failure (Option String × List Char) :=
  let key (cs : List Char) : Except Failure (Option String × List Char) := do
    let (k, cs) ← readString cs
    return (some k, cs)
  match skipSpace cs with
  | [] => .error (.next .endInObject [])
  | '}' :: cs => .ok (none, cs)
  | '"' :: cs =>
    if first then key cs else .error (.next .expectedObjectEnd ('"' :: cs))
  | ',' :: cs =>
    if first then .error (.next .keyNotString (',' :: cs))
    else match skipSpace cs with
      | [] => .error (.next .endInValue [])
      | '"' :: cs => key cs
      | '}' :: cs => .error (.next .trailingComma ('}' :: cs))
      | cs => .error (.next .keyNotString cs)
  | cs => .error (.next (if first then .keyNotString else .expectedObjectEnd) cs)

def readColon (cs : List Char) : Except Failure (List Char) :=
  match skipSpace cs with
  | [] => .error (.next .endInObject [])
  | ':' :: cs => .ok cs
  | cs => .error (.next .expectedColon cs)

def readFields {α : Type} (value : List Char → Except Failure (α × List Char)) :
    Nat → Bool → List Char → Except Failure ((List (String × α)) × List Char)
  | 0, _, cs => .error (.next .endInObject cs)
  | fuel + 1, first, cs => do
    match ← readKey first cs with
    | (none, cs) => return ([], cs)
    | (some k, cs) =>
      let cs ← readColon cs
      let (v, cs) ← value cs
      let (fields, cs) ← readFields value fuel false cs
      return ((k, v) :: fields, cs)

def readValue : Nat → List Char → Except Failure (Value × List Char)
  | depth, cs =>
    match skipSpace cs with
    | [] => .error (.next .endInValue [])
    | 'n' :: cs => do return (.null, ← readWord ['u', 'l', 'l'] cs)
    | 't' :: cs => do return (.bool true, ← readWord ['r', 'u', 'e'] cs)
    | 'f' :: cs => do return (.bool false, ← readWord ['a', 'l', 's', 'e'] cs)
    | '"' :: cs => do
      let (s, cs) ← readString cs
      return (.string s, cs)
    | '[' :: cs =>
      match depth with
      | 0 => .error (.next .tooDeep ('[' :: cs))
      | depth + 1 => do
        let (vs, cs) ← readItems (readValue depth) (cs.length + 1) true cs
        return (.list vs, cs)
    | '{' :: cs =>
      match depth with
      | 0 => .error (.next .tooDeep ('{' :: cs))
      | depth + 1 => do
        let (fields, cs) ← readFields (readValue depth) (cs.length + 1) true cs
        return (.ofFields fields, cs)
    | c :: cs =>
      if c = '-' ∨ c.isDigit then do
        let (n, cs) ← readNumber (c :: cs)
        return (.number n, cs)
      else .error (.next .expectedValue (c :: cs))

def maxDepth : Nat := 127

def readEnd (cs : List Char) : Except Failure Unit :=
  match skipSpace cs with
  | [] => .ok ()
  | cs => .error (.next .trailingCharacters cs)

def read (s : String) : Except Failure Value := do
  let (v, cs) ← readValue maxDepth s.toList
  readEnd cs
  return v

end CompiledModels.Json
