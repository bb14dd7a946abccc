import CompiledModels.Number.Power

namespace CompiledModels.Shell.Arithmetic

inductive Expression
  | number (n : Int)
  | variable (name : String)
  | unary (sign : String) (a : Expression)
  | binary (sign : String) (a b : Expression)
  | both (a b : Expression)
  | either (a b : Expression)
  | choice (test yes no : Expression)
  | assign (name sign : String) (a : Expression)

inductive Failure
  | expecting (what : String)
  | divisionByZero
  | illegalNumber (text : String)
  deriving DecidableEq, Repr

namespace Failure

def message (text : String) : Failure → String
  | expecting what => "arithmetic expression: expecting " ++ what ++ ": \"" ++ text ++ "\""
  | divisionByZero => "arithmetic expression: division by zero: \"" ++ text ++ "\""
  | illegalNumber s => "Illegal number: " ++ s

end Failure

inductive Token
  | number (n : Int)
  | name (s : String)
  | sign (s : String)
  deriving DecidableEq

def signs : List String :=
  ["<<=", ">>=", "<<", ">>", "<=", ">=", "==", "!=", "&&", "||", "+=", "-=", "*=", "/=", "%=",
    "&=", "|=", "^=", "<", ">", "=", "+", "-", "*", "/", "%", "&", "|", "^", "~", "!", "(", ")",
    "?", ":"]

def wrap (n : Int) : Int := n.bmod (2 ^ 64)

def digitIn (base : Nat) (c : Char) : Option Nat :=
  let n :=
    if c.isDigit then c.toNat - 0x30
    else if 'a' ≤ c ∧ c ≤ 'f' then c.toNat - 0x57
    else if 'A' ≤ c ∧ c ≤ 'F' then c.toNat - 0x37
    else 16
  if n < base then some n else none

def natural (cs : List Char) : Nat × List Char :=
  let read (base : Nat) (cs : List Char) : Nat × List Char :=
    let digits := cs.takeWhile fun c => (digitIn base c).isSome
    (digits.foldl (fun n c => n * base + (digitIn base c).getD 0) 0, cs.drop digits.length)
  match cs with
  | '0' :: x :: c :: rest =>
    if (x == 'x' || x == 'X') && (digitIn 16 c).isSome then read 16 (c :: rest)
    else if (x == 'b' || x == 'B') && (digitIn 2 c).isSome then read 2 (c :: rest)
    else read 8 cs
  | '0' :: _ => read 8 cs
  | _ => read 10 cs

def numeral (cs : List Char) : Int × List Char :=
  let (n, rest) := natural cs
  ((min n (2 ^ 63 - 1) : Nat), rest)

def isBlank (c : Char) : Bool := c == ' ' || ('\t' ≤ c && c ≤ '\x0d')

def integerAt (cs : List Char) : Int × List Char :=
  let start := cs.dropWhile isBlank
  let (negative, start) := match start with
    | '-' :: cs => (true, cs)
    | '+' :: cs => (false, cs)
    | cs => (false, cs)
  if start.head?.all (!·.isDigit) then (0, cs)
  else
    let (n, rest) := natural start
    (if negative then -(n : Int) else n, rest)

def integerOf? (s : String) : Option Int :=
  let (n, rest) := integerAt s.toList
  if s.all isBlank then some 0
  else if rest.length = s.length || !(rest.all isBlank) then none
  else if n < -(2 ^ 63) || 2 ^ 63 ≤ n then none
  else some n

def decimal? (s : String) : Option Int :=
  let cs := s.toList.dropWhile isBlank
  let (negative, cs) := match cs with
    | '-' :: cs => (true, cs)
    | '+' :: cs => (false, cs)
    | cs => (false, cs)
  let digits := cs.takeWhile Char.isDigit
  if digits.isEmpty || !(cs.drop digits.length).all isBlank then none
  else
    let n : Int := (String.ofList digits).toNat?.getD 0
    some (if negative then -n else n)

def tokens : Nat → List Char → List Token
  | 0, _ => []
  | fuel + 1, cs =>
    match cs with
    | [] => []
    | c :: rest =>
      if isBlank c then tokens fuel rest
      else if c.isDigit then
        let (n, rest) := numeral cs
        .number n :: tokens fuel rest
      else if c.isAlpha || c == '_' then
        let word := cs.takeWhile fun c => c.isAlphanum || c == '_'
        .name (String.ofList word) :: tokens fuel (cs.drop word.length)
      else match signs.find? fun s => s.toList.isPrefixOf cs with
        | some s => .sign s :: tokens fuel (cs.drop s.length)
        | none => .sign c.toString :: tokens fuel rest

def ranks : List (List String) :=
  [["||"], ["&&"], ["|"], ["^"], ["&"], ["==", "!="], ["<", "<=", ">", ">="], ["<<", ">>"],
    ["+", "-"], ["*", "/", "%"]]

def assignments : List String :=
  ["=", "+=", "-=", "*=", "/=", "%=", "<<=", ">>=", "&=", "|=", "^="]

abbrev Parse := StateT (List Token) (Except Failure)

def accept (signs : List String) : Parse (Option String) := do
  match ← get with
  | .sign s :: rest =>
    if signs.contains s then
      set rest
      return some s
    else return none
  | _ => return none

def expect (sign : String) : Parse Unit := do
  if (← accept [sign]).isNone then throw (.expecting ("'" ++ sign ++ "'"))

def join (sign : String) (a b : Expression) : Expression :=
  match sign with
  | "||" => .either a b
  | "&&" => .both a b
  | _ => .binary sign a b

mutual

def expression : Nat → Parse Expression
  | 0 => throw (.expecting "EOF")
  | fuel + 1 => do
    match ← get with
    | .name x :: .sign s :: rest =>
      if assignments.contains s then
        set rest
        return .assign x (s.dropEnd 1).toString (← expression fuel)
      else conditional fuel
    | _ => conditional fuel

def conditional : Nat → Parse Expression
  | 0 => throw (.expecting "EOF")
  | fuel + 1 => do
    let test ← level ranks fuel
    if (← accept ["?"]).isNone then return test
    else
      let yes ← expression fuel
      expect ":"
      return .choice test yes (← conditional fuel)

def level (levels : List (List String)) : Nat → Parse Expression
  | 0 => throw (.expecting "EOF")
  | fuel + 1 => do
    match levels with
    | [] => primary fuel
    | signs :: stronger => following signs stronger (← level stronger fuel) fuel

def following (signs : List String) (stronger : List (List String)) (a : Expression) :
    Nat → Parse Expression
  | 0 => throw (.expecting "EOF")
  | fuel + 1 => do
    match ← accept signs with
    | none => return a
    | some sign => following signs stronger (join sign a (← level stronger fuel)) fuel

def primary : Nat → Parse Expression
  | 0 => throw (.expecting "EOF")
  | fuel + 1 => do
    match ← get with
    | .number n :: rest =>
      set rest
      return .number n
    | .name x :: rest =>
      set rest
      return .variable x
    | .sign "(" :: rest =>
      set rest
      let a ← expression fuel
      expect ")"
      return a
    | .sign s :: rest =>
      if ["+", "-", "!", "~"].contains s then
        set rest
        return .unary s (← primary fuel)
      else throw (.expecting "primary")
    | [] => throw (.expecting "primary")

end

def parse (s : String) : Except Failure Expression :=
  let ts := tokens (s.length + 1) s.toList
  match (expression (20 * ts.length + 40)).run ts with
  | .error e => .error e
  | .ok (e, []) => .ok e
  | .ok (_, _ :: _) => .error (.expecting "EOF")

def truth (b : Bool) : Int := if b then 1 else 0

def bitwise (f : BitVec 64 → BitVec 64 → BitVec 64) (a b : Int) : Int :=
  (f (BitVec.ofInt 64 a) (BitVec.ofInt 64 b)).toInt

def distance (b : Int) : Nat := (b % 64).toNat

def calculate (sign : String) (a b : Int) : Except Failure Int :=
  match sign with
  | "|" => .ok (bitwise (· ||| ·) a b)
  | "^" => .ok (bitwise (· ^^^ ·) a b)
  | "&" => .ok (bitwise (· &&& ·) a b)
  | "==" => .ok (truth (a == b))
  | "!=" => .ok (truth (a != b))
  | "<=" => .ok (truth (a ≤ b))
  | ">=" => .ok (truth (b ≤ a))
  | "<" => .ok (truth (a < b))
  | ">" => .ok (truth (b < a))
  | "<<" => .ok (bitwise (fun x _ => x <<< distance b) a b)
  | ">>" => .ok (bitwise (fun x _ => x.sshiftRight (distance b)) a b)
  | "+" => .ok (wrap (a + b))
  | "-" => .ok (wrap (a - b))
  | "*" => .ok (wrap (a * b))
  | "/" => if b = 0 then .error .divisionByZero else .ok (wrap (a.tdiv b))
  | "%" => if b = 0 then .error .divisionByZero else .ok (a.tmod b)
  | _ => .ok b

structure Variables where
  value : String → Option String
  assigned : List (String × Int)

abbrev Eval := StateT Variables (Except Failure)

def lookup (name : String) : Eval Int := do
  let v ← get
  match v.assigned.find? (·.1 = name) with
  | some (_, n) => return n
  | none =>
    let s := (v.value name).getD ""
    match integerOf? s with
    | some n => return n
    | none => throw (.illegalNumber s)

def eval : Expression → Eval Int
  | .number n => return n
  | .variable x => lookup x
  | .unary sign a => do
    let n ← eval a
    return match sign with
      | "-" => wrap (-n)
      | "!" => truth (n == 0)
      | "~" => -n - 1
      | _ => n
  | .binary sign a b => do
    let m ← eval a
    let n ← eval b
    calculate sign m n
  | .both a b => do
    if (← eval a) == 0 then return 0 else return truth ((← eval b) != 0)
  | .either a b => do
    if (← eval a) != 0 then return 1 else return truth ((← eval b) != 0)
  | .choice test yes no => do
    if (← eval test) != 0 then eval yes else eval no
  | .assign x sign a => do
    let n ← eval a
    let value ← if sign.isEmpty then pure n else calculate sign (← lookup x) n
    modify fun v => { v with assigned := (x, value) :: v.assigned }
    return value

def value (bindings : String → Option String) (s : String) :
    Except Failure (Int × List (String × Int)) := do
  let e ← parse s
  let (n, v) ← (eval e).run ⟨bindings, []⟩
  return (n, v.assigned)

end CompiledModels.Shell.Arithmetic
