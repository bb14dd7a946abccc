import CompiledModels.Kernel.Open
import CompiledModels.Shell.Arithmetic

namespace CompiledModels.Shell.Condition

inductive Sign
  | unary
  | binary
  | not
  | and
  | or
  | opening
  | closing
  deriving DecidableEq

def sign? (w : String) : Option Sign :=
  if ["-r", "-w", "-x", "-e", "-f", "-d", "-c", "-b", "-p", "-u", "-g", "-k", "-s", "-t", "-z",
      "-n", "-h", "-L", "-O", "-G", "-S"].contains w then some .unary
  else if ["=", "!=", "<", ">", "-eq", "-ne", "-ge", "-gt", "-le", "-lt", "-nt", "-ot",
      "-ef"].contains w then some .binary
  else match w with
    | "!" => some .not
    | "-a" => some .and
    | "-o" => some .or
    | "(" => some .opening
    | ")" => some .closing
    | _ => none

/-- Whether the first word is an operand although it looks like an operator of one operand: it
stands alone, or in front of an operator of two. -/
def isOperand (ws : List String) : Bool :=
  match ws with
  | _ :: s :: t :: _ => sign? s = some .binary && t != ")"
  | [_, _] => false
  | _ => true

def signOf (ws : List String) : Option Sign :=
  match ws with
  | [] => none
  | w :: rest =>
    match sign? w with
    | some .unary => if isOperand ws then none else some .unary
    | some .opening => if rest.isEmpty then none else some .opening
    | s => s

structure Words where
  last : String
  rest : List String

abbrev Test := ReaderT (Kernel × Nat) (StateT Words (Except String))

def rest : Test (List String) := return (← get).rest

def take : Test String := do
  match (← get).rest with
  | w :: rest =>
    set (Words.mk w rest)
    return w
  | [] => return ""

def facts? (p : String) (follow : Bool) : Test (Option Kernel.Facts) := do
  let (k, process) ← read
  return (k.facts process follow p).toOption

def isTerminal : Bool := false

def ofFile (sign operand : String) : Test Bool := do
  let facts ← facts? operand true
  let bit (b : Nat) : Bool := facts.any fun f => f.mode &&& b != 0
  match sign with
  | "-n" => return !operand.isEmpty
  | "-z" => return operand.isEmpty
  | "-t" =>
    if (Arithmetic.decimal? operand).isNone then throw ("Illegal number: " ++ operand)
    return isTerminal
  | "-f" => return facts.any (·.isFile)
  | "-d" => return facts.any (·.isDirectory)
  | "-p" => return facts.any (·.kind = .pipe)
  | "-c" => return facts.any (·.isDevice)
  | "-s" => return facts.any (0 < ·.size)
  | "-x" => return facts.any fun f => f.isDirectory || f.mode &&& 0o111 != 0
  | "-b" => return false
  | "-u" => return bit 0o4000
  | "-g" => return bit 0o2000
  | "-k" => return bit 0o1000
  | "-S" => return false
  | "-L" => return (← facts? operand false).any (·.isLink)
  | "-h" => return (← facts? operand false).any (·.isLink)
  | _ => return facts.isSome

def integer (s : String) : Test Int := do
  match Arithmetic.decimal? s with
  | some n =>
    if n < -(2 ^ 63) || 2 ^ 63 ≤ n then throw ("Illegal number: " ++ s) else return n
  | none => throw ("Illegal number: " ++ s)

def isNewer (a b : String) : Test Bool := do
  match ← facts? a true, ← facts? b true with
  | some f, some g => return g.time < f.time
  | _, _ => return false

def isSame (a b : String) : Test Bool := do
  match ← facts? a true, ← facts? b true with
  | some f, some g => return f.key.isSome && f.key = g.key
  | _, _ => return false

def ofTwo (a sign b : String) : Test Bool := do
  let numbers (f : Int → Int → Bool) : Test Bool := do
    let m ← integer a
    let n ← integer b
    return f m n
  match sign with
  | "=" => return a == b
  | "!=" => return a != b
  | "<" => return a < b
  | ">" => return b < a
  | "-eq" => numbers (· == ·)
  | "-ne" => numbers (· != ·)
  | "-lt" => numbers (· < ·)
  | "-le" => numbers (· ≤ ·)
  | "-gt" => numbers fun m n => n < m
  | "-ge" => numbers fun m n => n ≤ m
  | "-nt" => isNewer a b
  | "-ot" => isNewer b a
  | _ => isSame a b

def simple : Test Bool := do
  let words ← rest
  if words.isEmpty then return false
  let w ← take
  if signOf words = some .unary then
    if (← rest).isEmpty then throw (w ++ ": argument expected")
    ofFile w (← take)
  else if signOf (← rest) = some .binary then
    let sign ← take
    if (← rest).isEmpty then throw (sign ++ ": argument expected")
    ofTwo w sign (← take)
  else return !w.isEmpty

mutual

def either : Nat → Test Bool
  | 0 => return false
  | fuel + 1 => do
    let a ← both fuel
    if (← rest).head? == some "-o" then
      let _ ← take
      let b ← either fuel
      return a || b
    else return a

def both : Nat → Test Bool
  | 0 => return false
  | fuel + 1 => do
    let a ← negation fuel
    if (← rest).head? == some "-a" then
      let _ ← take
      let b ← both fuel
      return a && b
    else return a

def negation : Nat → Test Bool
  | 0 => return false
  | fuel + 1 => do
    match signOf (← rest) with
    | some .not =>
      let _ ← take
      return !(← negation fuel)
    | some .opening =>
      let _ ← take
      let a ← either fuel
      if (← take) == ")" then return a else throw "closing paren expected"
    | _ => simple

end

/-- The truth of a condition. With three or four words an operator of two operands in the middle,
brackets around and a leading `!` come first, in this order. -/
def truth (ws : List String) : Test Bool := do
  let inner := (ws.drop 1).dropLast
  let bracketed := ws.head? == some "(" && ws.getLast? == some ")"
  let middle := (ws[1]?.bind sign?) = some .binary
  let fuel := 4 * ws.length + 4
  if ws.length = 3 && middle then simple
  else if (ws.length = 3 || ws.length = 4) && bracketed then
    set (Words.mk "" inner)
    either fuel
  else if (ws.length = 3 || ws.length = 4) && ws.head? == some "!" then
    let _ ← take
    return !(← negation fuel)
  else either fuel

def holds (k : Kernel) (process : Nat) (ws : List String) : Except String Bool := do
  let (b, words) ← (truth ws).run (k, process) ⟨"", ws⟩
  if words.rest.isEmpty then return b
  else throw (words.last ++ ": unexpected operator")

end CompiledModels.Shell.Condition
