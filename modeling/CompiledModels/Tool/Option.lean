import CompiledModels.Tool.Work

namespace CompiledModels.Tool

inductive Takes
  | nothing
  | text
  | maybe
  deriving DecidableEq

structure Given where
  letter : Char
  text : Option String

structure Options where
  given : List Given := []
  operands : List String := []

structure Known where
  letters : List (Char × Takes)
  words : List (String × Takes × Char)
  strict : Bool := false

namespace Options

variable (o : Options)

def has (c : Char) : Bool := o.given.any (·.letter = c)

def text? (c : Char) : Option String := (o.given.reverse.find? (·.letter = c)).bind (·.text)

def texts (c : Char) : List String := o.given.filterMap fun g => if g.letter = c then g.text else none

def last? (cs : String) : Option Char :=
  (o.given.reverse.find? fun g => cs.contains g.letter).map (·.letter)

def count (c : Char) : Nat := (o.given.filter (·.letter = c)).length

end Options

namespace Known

def readLetters : List Char → List (Char × Takes)
  | c :: ':' :: ':' :: rest => (c, .maybe) :: readLetters rest
  | c :: ':' :: rest => (c, .text) :: readLetters rest
  | c :: rest => (c, .nothing) :: readLetters rest
  | [] => []

/-- A word with the letter that it stands for behind a mark: an equals sign if it takes a text, a
question mark if it may have one, or a slash. -/
def readWord (s : String) : String × Takes × Char :=
  let cs := s.toList
  let name := cs.takeWhile fun c => !"=?/".contains c
  let takes := match cs[name.length]? with
    | some '=' => Takes.text
    | some '?' => .maybe
    | _ => .nothing
  (String.ofList name, takes, (cs[name.length + 1]?).getD ' ')

def of (letters words : String) (strict : Bool := false) : Known :=
  ⟨readLetters letters.toList, (Text.words words).map readWord, strict⟩

variable (known : Known)

open Work

def takeLetters (o : Options) (rest : List String) : List Char → Work (Options × List String)
  | [] => return (o, rest)
  | c :: cs => do
    let give (text : Option String) : Options := { o with given := o.given ++ [⟨c, text⟩] }
    match (known.letters.find? (·.1 = c)).map (·.2) with
    | none => misuse ("invalid option -- '" ++ c.toString ++ "'")
    | some .nothing => takeLetters (give none) rest cs
    | some .maybe =>
      return (give (if cs.isEmpty then none else some (String.ofList cs)), rest)
    | some .text =>
      if !cs.isEmpty then return (give (some (String.ofList cs)), rest)
      else match rest with
        | [] => misuse ("option requires an argument -- '" ++ c.toString ++ "'")
        | a :: rest => return (give (some a), rest)

def takeWord (o : Options) (rest : List String) (a : String) : Work (Options × List String) := do
  let name := String.ofList (a.toList.takeWhile (· != '='))
  let text : Option String :=
    if a.contains '=' then some (a.drop (name.length + 1)).toString else none
  let exact := known.words.filter (·.1 = name)
  let near := known.words.filter fun w => w.1.startsWith name
  let same := near.all fun w => some w.2 = (near.head?.map (·.2))
  match exact ++ near with
  | [] => misuse ("unrecognized option '--" ++ a ++ "'")
  | (word, takes, letter) :: _ =>
    if exact.isEmpty && !same then
      misuse ("option '--" ++ a ++ "' is ambiguous; possibilities:" ++
        String.join (near.map fun w => " '--" ++ w.1 ++ "'"))
    else
      let give (text : Option String) : Options := { o with given := o.given ++ [⟨letter, text⟩] }
      match takes, text with
      | .nothing, some _ => misuse ("option '--" ++ word ++ "' doesn't allow an argument")
      | .text, none =>
        match rest with
        | [] => misuse ("option '--" ++ word ++ "' requires an argument")
        | a :: rest => return (give (some a), rest)
      | _, _ => return (give text, rest)

def takeAll (strict : Bool) (o : Options) : Nat → List String → Work Options
  | 0, rest => return { o with operands := o.operands ++ rest }
  | _, [] => return o
  | fuel + 1, a :: rest => do
    if a == "--" then return { o with operands := o.operands ++ rest }
    else if a.startsWith "--" then
      let (o, rest) ← takeWord known o rest (a.drop 2).toString
      takeAll strict o fuel rest
    else if a.startsWith "-" && a != "-" then
      let (o, rest) ← takeLetters known o rest (a.toList.drop 1)
      takeAll strict o fuel rest
    else if strict then return { o with operands := o.operands ++ a :: rest }
    else takeAll strict { o with operands := o.operands ++ [a] } fuel rest

def readAll (args : List String) : Work Options := do
  let strict := known.strict || (← setting? "POSIXLY_CORRECT").isSome
  takeAll known strict {} (args.length + 1) args

def read : Work Options := do readAll known (← get).arguments

end Known

end CompiledModels.Tool
