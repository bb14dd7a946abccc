import CompiledModels.Shell.Syntax

namespace CompiledModels.Shell

structure Cursor where
  rest : List Char
  line : Nat
  aliases : List (String × String) := []
  inside : List (String × Nat) := []

structure SyntaxError where
  line : Nat
  reason : String
  deriving DecidableEq, Repr

namespace SyntaxError

def message (e : SyntaxError) : String := "Syntax error: " ++ e.reason

end SyntaxError

abbrev Parse := StateT Cursor (Except SyntaxError)

namespace Parse

def look : Parse (Option Char) := return (← get).rest.head?

def startsWith (s : String) : Parse Bool := return s.toList.isPrefixOf (← get).rest

def skip (count : Nat) : Parse Unit :=
  modify fun c =>
    let passed := c.rest.take count
    { c with rest := c.rest.drop count, line := c.line + (passed.filter (· == '\n')).length }

def accept (s : String) : Parse Bool := do
  if ← startsWith s then
    skip s.length
    return true
  else return false

def takeWhile (p : Char → Bool) : Parse String := do
  let taken := (← get).rest.takeWhile p
  skip taken.length
  return String.ofList taken

def isBlank (c : Char) : Bool := c == ' ' || c == '\t'

def skipBlanks : Nat → Parse Unit
  | 0 => pure ()
  | fuel + 1 => do
    let _ ← takeWhile isBlank
    if ← accept "\\\n" then skipBlanks fuel
    else if (← look) == some '#' then
      let _ ← takeWhile (· != '\n')
    else pure ()

def skipLines : Nat → Parse Unit
  | 0 => pure ()
  | fuel + 1 => do
    skipBlanks (fuel + 1)
    if ← accept "\n" then skipLines fuel else pure ()

def isMeta (c : Char) : Bool :=
  isBlank c || "\n;&|<>()".toList.contains c

def isNameStart (c : Char) : Bool := c.isAlpha || c == '_'

def isNameRest (c : Char) : Bool := c.isAlphanum || c == '_'

def isName (s : String) : Bool :=
  match s.toList with
  | c :: cs => isNameStart c && cs.all isNameRest
  | [] => false

def fail {α : Type} (reason : String) : Parse α := do throw ⟨(← get).line, reason⟩

def upcoming : Parse String := return String.ofList ((← get).rest.takeWhile (!isMeta ·))

def closers : List String := ["\x7d", "then", "else", "elif", "fi", "do", "done", "esac"]

def openers : List String := ["\x7b", "!", "if", "while", "until", "for", "case", "in"]

def specialNames : List String :=
  [":", ".", "break", "continue", "eval", "exec", "exit", "export", "local", "readonly", "return",
    "set", "shift", "times", "trap", "unset"]

def signs : List String := ["&&", "||", ";;", ";", "&", "|", "(", ")"]

def expandAlias : Parse Bool := do
  let c ← get
  if c.aliases.isEmpty then return false
  let word ← upcoming
  let left := c.rest.length - word.length
  match c.aliases.find? (·.1 = word) with
  | none => return false
  | some (_, text) =>
    let inside := c.inside.filter (·.2 < c.rest.length)
    if (closers ++ openers).contains word || inside.any (·.1 = word) then return false
    else
      set { c with rest := text.toList ++ c.rest.drop word.length
                   inside := (word, left) :: inside }
      return true

def nextToken (reserved : Bool) : Parse String := do
  let rest := (← get).rest
  match rest.head?, signs.find? fun s => s.toList.isPrefixOf rest with
  | none, _ => return "end of file"
  | _, some sign => return "\"" ++ sign ++ "\""
  | some '\n', _ =>
    skip 1
    return "newline"
  | some c, none =>
    let word ← upcoming
    if c == '<' || c == '>' then return "redirection"
    else if reserved && (closers ++ openers).contains word then return "\"" ++ word ++ "\""
    else return "word"

def refuse {α : Type} : Parse α := do
  let token ← nextToken true
  fail (token ++ " unexpected")

def refuseFor {α : Type} (wanted : String) (reserved : Bool) : Parse α := do
  let token ← nextToken reserved
  fail (token ++ " unexpected (expecting \"" ++ wanted ++ "\")")

def expect (s : String) (reserved : Bool) : Parse Unit := do
  if ← accept s then pure () else refuseFor s reserved

def acceptWord (w : String) : Parse Bool := do
  if (← upcoming) == w then
    skip w.length
    return true
  else return false

def expectWord (w : String) : Parse Unit := do
  if ← acceptWord w then pure () else refuseFor w true

def unterminated {α : Type} : Parse α := fail "Unterminated quoted string"

def closeBrace : Parse Unit := do
  if ← accept "\x7d" then pure () else fail "Missing '\x7d'"

def singleQuoted : Parse Part := do
  let s ← takeWhile (· != '\'')
  if ← accept "'" then return .text s true else unterminated

end Parse

end CompiledModels.Shell
