import CompiledModels.Shell.Expand

namespace CompiledModels.Shell.Builtin

open Eval

structure Options where
  given : List (Char × String)
  rest : List String

namespace Options

def has (o : Options) (c : Char) : Bool := o.given.any (·.1 = c)

def value? (o : Options) (c : Char) : Option String :=
  (o.given.reverse.find? (·.1 = c)).map (·.2)

end Options

def takesText? (spec : List Char) (c : Char) : Option Bool :=
  match spec with
  | [] => none
  | d :: rest =>
    if c == d && c != ':' then some (rest.head? == some ':') else takesText? rest c

def letters (spec : List Char) (o : List (Char × String)) (next : List String) :
    List Char → Eval (List (Char × String) × List String)
  | [] => return (o, next)
  | c :: cs => do
    match takesText? spec c with
    | none => fail ("Illegal option -" ++ c.toString)
    | some false => letters spec (o ++ [(c, "")]) next cs
    | some true =>
      if !cs.isEmpty then return (o ++ [(c, String.ofList cs)], next)
      else match next with
        | [] => fail ("No arg for -" ++ c.toString ++ " option")
        | a :: next => return (o ++ [(c, a)], next)

def options (spec : String) (args : List String) : Eval Options :=
  go [] (args.length + 1) args
where
  go (o : List (Char × String)) : Nat → List String → Eval Options
    | 0, rest => return ⟨o, rest⟩
    | _, [] => return ⟨o, []⟩
    | fuel + 1, a :: rest => do
      if a == "--" then return ⟨o, rest⟩
      else if !a.startsWith "-" || a == "-" then return ⟨o, a :: rest⟩
      else
        let (o, rest) ← letters spec.toList o rest (a.toList.drop 1)
        go o fuel rest

def maxNumber : Int := 2 ^ 31 - 1

def number (s : String) : Eval Nat := do
  match Arithmetic.decimal? s with
  | some n => if n < 0 || maxNumber < n then fail ("Illegal number: " ++ s) else return n.toNat
  | none => fail ("Illegal number: " ++ s)

def quote (s : String) : String :=
  let rec go : Nat → List Char → List Char
    | 0, _ => []
    | fuel + 1, cs =>
      let plain := cs.takeWhile (· != '\'')
      let rest := cs.drop plain.length
      let quotes := rest.takeWhile (· == '\'')
      let start := '\'' :: plain ++ ['\'']
      if quotes.isEmpty then start
      else
        let rest := rest.drop quotes.length
        start ++ '"' :: quotes ++ '"' :: (if rest.isEmpty then [] else go fuel rest)
  String.ofList (go (s.length + 1) s.toList)

def isNameStart (c : Char) : Bool := c.isAlpha || c == '_'

def isName (s : String) : Bool :=
  match s.toList with
  | c :: cs => isNameStart c && cs.all fun c => c.isAlphanum || c == '_'
  | [] => false

def splitAssignment (a : String) : String × Option String :=
  let name := a.toList.takeWhile (· != '=')
  (String.ofList name,
    if a.contains '=' then some (String.ofList (a.toList.drop (name.length + 1))) else none)

def checkName (name : String) : Eval Unit := do
  if !isName name then fail (name ++ ": bad variable name")

end CompiledModels.Shell.Builtin
