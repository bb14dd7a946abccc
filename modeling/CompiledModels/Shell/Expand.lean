import CompiledModels.Shell.Arithmetic
import CompiledModels.Shell.Field
import CompiledModels.Shell.State

namespace CompiledModels.Shell

open Kernel (Run)

namespace Eval

def parameter? (name : String) : Eval (Option String) := do
  let s ← get
  match name with
  | "#" => return some (toString s.arguments.length)
  | "?" => return some (toString s.status)
  | "$" => return some (toString s.root)
  | "!" => return s.lastJob.map toString
  | "-" =>
    return some (String.ofList ((optionNames.reverse.map (·.2)).filter fun c =>
      s.options.contains c && ' ' ≤ c))
  | "0" => return some s.name
  | _ =>
    match name.toNat? with
    | some n => return s.arguments[n - 1]?
    | none => value? name

/-- What stands between the arguments when they are put together: nothing, a character, or the mark
at which they become fields of their own. -/
def argumentGap (each quoted full : Bool) : Eval String := do
  if full && quoted && each then return argumentEnd.toString
  else
    match ← value? "IFS" with
    | none => return " "
    | some separators =>
      if full && !quoted then return argumentEnd.toString else return (separators.take 1).toString

def login (assignment : Bool) (cs : List Char) : String :=
  String.ofList (cs.takeWhile fun c => c != '/' && !(assignment && c == ':'))

def home? (name : String) : Eval (Option String) := do
  if name.isEmpty then value? "HOME"
  else if name == "root" then return some "/root"
  else return none

def literal (inside quoted : Bool) (s : String) : Segment :=
  if quoted && s.isEmpty then ⟨[.mark], .never⟩
  else ⟨Item.ofText quoted s, if inside && !quoted then .separators else .never⟩

inductive Tilde
  | nowhere
  | front
  | value
  deriving DecidableEq

def tildeText (inside isLast : Bool) (rule : Tilde) :
    Nat → Bool → List Char → Eval (List Segment)
  | 0, _, cs => return [literal inside false (String.ofList cs)]
  | fuel + 1, front, cs => do
    let plainly (cs : List Char) : Eval (List Segment) := do
      if rule != .value then return [literal inside false (String.ofList cs)]
      let start := cs.takeWhile (· != ':')
      match cs.drop start.length with
      | [] => return [literal inside false (String.ofList cs)]
      | c :: rest =>
        let more ← tildeText inside isLast rule fuel true rest
        return literal inside false (String.ofList (start ++ [c])) :: more
    match cs with
    | '~' :: rest =>
      let name := login (rule = .value) rest
      if !front || (name.length = rest.length && !isLast) then plainly cs
      else
        match ← home? name with
        | none => plainly cs
        | some home =>
          let segment : Segment := ⟨Item.ofText true home, .never⟩
          return segment :: (← plainly (rest.drop name.length))
    | _ => plainly cs

def ofValue (quoted : Bool) (s : String) : Segment :=
  ⟨Item.ofText quoted s, if quoted then .never else .separators⟩

def allArguments (each quoted full : Bool) : Eval Segment := do
  let gap ← argumentGap each quoted full
  let args := (← get).arguments
  let items := Item.ofText quoted (gap.intercalate args)
  let splitting : Splitting :=
    if !quoted then .separators
    else if each && !args.isEmpty then .arguments else .never
  return ⟨items, splitting⟩

def arithmetic (text : String) : Eval Int := do
  let s ← get
  let lookup (name : String) : Option String :=
    (s.bindings.find? (·.name = name)).bind (·.value)
  match Arithmetic.value lookup text with
  | .ok (n, assigned) =>
    for (name, value) in assigned.reverse do assign name (toString value)
    return n
  | .error e => fail (e.message text)

structure Manner where
  full : Bool
  inside : Bool := false
  tilde : Tilde := .nowhere

variable (substitute : Command → Eval String)

mutual

def segments (m : Manner) (front : Bool) : List Part → Eval (List Segment)
  | [] => return []
  | p :: ps => do
    let first ← segmentsOf m front ps.isEmpty p
    return first ++ (← segments m false ps)

def segmentsOf (m : Manner) (front isLast : Bool) : Part → Eval (List Segment)
  | .text s quoted =>
    if quoted || m.tilde = .nowhere || !(s.toList.contains '~') then
      return [literal m.inside quoted s]
    else tildeText m.inside isLast m.tilde (s.length + 1) front s.toList
  | .substitution body quoted => do
    let text ← substitute body
    return [ofValue quoted text]
  | .arithmetic word quoted => do
    let text := Segment.text (← segments { full := false } false word)
    return [ofValue quoted (toString (← arithmetic text))]
  | .parameter name op word quoted => do
    let isList := name == "@" || name == "*"
    let all : Eval Segment := allArguments (name == "@") quoted m.full
    let value ← if isList then pure (some (Segment.text [← all])) else parameter? name
    let shown : Eval (List Segment) := do
      if isList then return [← all] else return [ofValue quoted ((← parameter? name).getD "")]
    let missing (orEmpty : Bool) : Bool := value.isNone || (orEmpty && value == some "")
    let nothing : Segment := ofValue quoted ""
    let inner : Manner :=
      { m with inside := true, tilde := if quoted then .nowhere else .front }
    let strictly (next : Eval (List Segment)) : Eval (List Segment) := do
      if value.isNone && (← hasOption 'u') then fail (name ++ ": parameter not set") else next
    match op with
    | .unknown => fail "Bad substitution"
    | .plain => strictly shown
    | .length => strictly (return [ofValue quoted (toString (value.getD "").length)])
    | .default orEmpty => if missing orEmpty then segments inner true word else shown
    | .alternative orEmpty =>
      if missing orEmpty then return [nothing] else segments inner true word
    | .assign orEmpty =>
      if missing orEmpty then
        let text := Segment.text (← segments { inner with full := false } true word)
        if isList || name.toNat?.isSome || "#?$!-".toList.any (name == ·.toString) then
          fail (name ++ ": bad variable name")
        assign name text
      shown
    | .require orEmpty =>
      if missing orEmpty then
        let text := Segment.text (← segments { inner with full := false } true word)
        let unset := "parameter not set" ++ (if orEmpty then " or null" else "")
        fail (name ++ ": " ++ (if word.isEmpty then unset else text))
      else shown
    | .dropSuffix longest => strictly do
      let pattern := Segment.pattern (← segments { full := false, tilde := .front } true word)
      let kept := dropSuffix longest pattern (value.getD "").toList
      return [ofValue quoted (String.ofList kept)]
    | .dropStart longest => strictly do
      let pattern := Segment.pattern (← segments { full := false, tilde := .front } true word)
      let kept := dropStart longest pattern (value.getD "").toList
      return [ofValue quoted (String.ofList kept)]

end

def wordText (rule : Tilde) (word : List Part) : Eval String := do
  return Segment.text (← segments substitute { full := false, tilde := rule } true word)

def wordPattern (word : List Part) : Eval (List QuotedChar) := do
  return Segment.pattern (← segments substitute { full := false, tilde := .front } true word)

def separators : Eval (List Char) := return (← valueOr "IFS" " \t\n").toList

def wordFields (word : List Part) : Eval (List String) := do
  let ss ← segments substitute { full := true, tilde := .front } true word
  let fields := (splitFields (← separators) none ss).map quotedChars
  if (← hasOption 'f') || !fields.any (·.any isPatternSign) then return fields.map plainText
  else return (← lift (Run.look fun process k => fields.flatMap (matchFiles k process)))

end Eval

end CompiledModels.Shell
